import LetterLang.Tree.ToJson
import LetterLang.Proofs.JsonText

/-!
# The JSON of a tree identifies the tree

The objects of nodes carry no mark of the constructor they come from but their `type`. That is
enough: the type gives the kind of the node, and where two constructors share a kind, the type of a
part or a missing part tells them apart. Numbers are the one place where two trees could be written
alike, since infinities and what is not a number are all `null`, and the negative zero is a zero.

- `Json.nodeKind?`: the kind of the node that an object is of.
- `Json.ofNumber_inj`: finite numbers other than the negative zero have JSON of their own.
- `Expr.toJson_inj`, `Statement.toJson_inj`: so have trees with such numbers.
- `json_identifies_program`: and so have their texts, compact and pretty.
-/

namespace LetterLang

/-! ## The numbers of a tree -/

mutual

def Expr.numbers : Expr → List Binary64
  | .number value => [value]
  | .identifier _ | .string _ | .boolean _ | .null | .this | .super => []
  | .assign _ _ value => value.numbers
  | .assignMember _ object property _ value =>
    object.numbers ++ (property.numbers ++ value.numbers)
  | .logical _ left right | .binary _ left right => left.numbers ++ right.numbers
  | .unary _ argument => argument.numbers
  | .member object property _ => object.numbers ++ property.numbers
  | .call callee arguments | .new callee arguments =>
    callee.numbers ++ Expr.listNumbers arguments

def Expr.listNumbers : List Expr → List Binary64
  | [] => []
  | e :: es => e.numbers ++ Expr.listNumbers es

end

def Expr.optionNumbers : Option Expr → List Binary64
  | some e => e.numbers
  | none => []

def Declaration.listNumbers (ds : List Declaration) : List Binary64 :=
  ds.flatMap fun d => Expr.optionNumbers d.init

def ForInit.optionNumbers : Option ForInit → List Binary64
  | some (.declarations ds) => Declaration.listNumbers ds
  | some (.expression e) => e.numbers
  | none => []

mutual

def Statement.numbers : Statement → List Binary64
  | .expression e => e.numbers
  | .empty => []
  | .block body => Statement.listNumbers body
  | .variable declarations => Declaration.listNumbers declarations
  | .ifThen test consequent => test.numbers ++ consequent.numbers
  | .ifElse test consequent alternate =>
    test.numbers ++ (consequent.numbers ++ alternate.numbers)
  | .whileLoop test body => test.numbers ++ body.numbers
  | .doWhile body test => body.numbers ++ test.numbers
  | .forLoop init test update body =>
    ForInit.optionNumbers init ++
      (Expr.optionNumbers test ++ (Expr.optionNumbers update ++ body.numbers))
  | .function _ _ body => Statement.listNumbers body
  | .return argument => Expr.optionNumbers argument
  | .class _ _ body => Statement.listNumbers body

def Statement.listNumbers : List Statement → List Binary64
  | [] => []
  | s :: ss => s.numbers ++ Statement.listNumbers ss

end

/-- The numeric literals of a program, in the order in which they stand. -/
def Program.numbers (p : Program) : List Binary64 :=
  Statement.listNumbers p.body

/-- The numbers with JSON of their own: the finite ones other than the negative zero. -/
def Binary64.IsProper (x : Binary64) : Prop :=
  x.isFinite = true ∧ x ≠ .finite true .zero

theorem Magnitude.toNat?_inj {m m' : Magnitude} {n : Nat} (h : m.toNat? = some n)
    (h' : m'.toNat? = some n) : m = m' := by
  have hunits : ∀ {m : Magnitude}, m.toNat? = some n → m.units = unitsInOne * n := by
    intro m h
    rw [toNat?] at h
    split at h
    · next hwhole =>
      cases h
      exact (Nat.mul_div_cancel' (Nat.dvd_of_mod_eq_zero hwhole)).symm
    · cases h
  cases m with | mk units hrep =>
  cases m' with | mk units' hrep' =>
  have heq : units = units' := (hunits h).trans (hunits h').symm
  subst heq
  rfl

theorem Magnitude.toNat?_zero : Magnitude.zero.toNat? = some 0 := by
  rw [toNat?, zero, Nat.zero_mod, if_pos rfl, Nat.zero_div]

theorem NodeKind.find?_name (kind : NodeKind) :
    NodeKind.all.find? (·.name = kind.name) = some kind := by
  cases kind <;> decide

namespace Json

theorem ofNumber_cases {x : Binary64} (hx : x.IsProper) :
    (∃ m n, x = .finite false m ∧ m.toNat? = some n ∧ ofNumber x = .natural n) ∨
      ∃ negative m, x = .finite negative m ∧ ofNumber x = .decimal negative m := by
  obtain ⟨hfinite, hzero⟩ := hx
  cases x with
  | nan => cases hfinite
  | infinite negative => cases hfinite
  | finite negative m =>
      rw [ofNumber]
      cases hnat : m.toNat? with
      | none => exact .inr ⟨negative, m, rfl, rfl⟩
      | some n =>
          dsimp only
          split
          · next h =>
            rcases h.2 with rfl | rfl
            · exact .inl ⟨m, n, rfl, hnat, rfl⟩
            · cases Magnitude.toNat?_inj hnat Magnitude.toNat?_zero
              cases negative with
              | false => exact .inl ⟨_, 0, rfl, hnat, rfl⟩
              | true => exact absurd rfl hzero
          · exact .inr ⟨negative, m, rfl, rfl⟩

/-- **Finite numbers other than the negative zero have JSON of their own.** -/
theorem ofNumber_inj {x y : Binary64} (hx : x.IsProper) (hy : y.IsProper)
    (h : ofNumber x = ofNumber y) : x = y := by
  rcases ofNumber_cases hx with ⟨m, n, rfl, hm, hn⟩ | ⟨negative, m, rfl, hn⟩ <;>
    rcases ofNumber_cases hy with ⟨m', n', rfl, hm', hn'⟩ | ⟨negative', m', rfl, hn'⟩ <;>
    rw [hn, hn'] at h <;> cases h
  · rw [Magnitude.toNat?_inj hm hm']
  · rfl

/-! ## The types of objects -/

/-- The kind that the `type` of an object names. -/
def nodeKind? : Json → Option NodeKind
  | .object ((_, .string name) :: _) => NodeKind.all.find? (·.name = name)
  | _ => none

theorem nodeKind?_node (kind : NodeKind) (parts : List (String × Json)) :
    (node kind parts).nodeKind? = some kind :=
  NodeKind.find?_name kind

theorem nodeKind?_identifier (name : String) : (identifier name).nodeKind? = none := by
  have hname : NodeKind.all.find? (·.name = "Identifier") = none := by decide
  exact hname

theorem identifier_ne_node {name : String} {kind : NodeKind} {parts : List (String × Json)} :
    identifier name ≠ node kind parts := by
  intro h
  have hkind := congrArg nodeKind? h
  rw [nodeKind?_identifier, nodeKind?_node] at hkind
  cases hkind

/-- Objects of one kind are compared part by part. -/
theorem node_cons_eq_iff {kind : NodeKind} {key : String} {value value' : Json}
    {parts parts' : List (String × Json)} :
    node kind ((key, value) :: parts) = node kind ((key, value') :: parts') ↔
      value = value' ∧ node kind parts = node kind parts' := by
  simp [node]

theorem identifier_inj {name name' : String} (h : identifier name = identifier name') :
    name = name' := by
  simpa [identifier] using h

theorem optionIdentifier_inj {name name' : Option String}
    (h : (name.map identifier).getD .null = (name'.map identifier).getD .null) : name = name' := by
  cases name with
  | none =>
      cases name' with
      | none => rfl
      | some name' => cases h
  | some name =>
      cases name' with
      | none => cases h
      | some name' => rw [identifier_inj h]

end Json

def Expr.nodeKind? (e : Expr) : Option NodeKind :=
  match e.kind with
  | .node kind => some kind
  | .token _ => none

theorem Expr.nodeKind?_toJson (e : Expr) : e.toJson.nodeKind? = e.nodeKind? := by
  cases e with
  | identifier name => rw [Expr.toJson, Json.nodeKind?_identifier, nodeKind?, kind]
  | _ => rw [Expr.toJson, Json.nodeKind?_node, nodeKind?, kind]

theorem Statement.nodeKind?_toJson (s : Statement) : s.toJson.nodeKind? = some s.kind := by
  cases s <;> rw [Statement.toJson] <;> exact Json.nodeKind?_node _ _

/-- Expressions with the same JSON are of one kind. -/
theorem Expr.nodeKind?_eq {e e' : Expr} (h : e.toJson = e'.toJson) :
    e.nodeKind? = e'.nodeKind? := by
  rw [← nodeKind?_toJson, h, nodeKind?_toJson]

theorem Statement.kind_eq_of_toJson {s s' : Statement} (h : s.toJson = s'.toJson) :
    s.kind = s'.kind := by
  have hkind := congrArg Json.nodeKind? h
  rw [nodeKind?_toJson, nodeKind?_toJson] at hkind
  exact Option.some.inj hkind

/-! ## Expressions -/

/-- What can be read back was written from one thing only. -/
theorem eq_of_readBack {α β : Type} {write : α → β} {read? : β → Option α}
    (hread : ∀ a, read? (write a) = some a) {a b : α} (h : write a = write b) : a = b := by
  have hsome := congrArg read? h
  rw [hread, hread] at hsome
  exact Option.some.inj hsome

mutual

/-- **An expression is identified by its JSON.** -/
theorem Expr.toJson_inj : ∀ {e e' : Expr}, (∀ x ∈ e.numbers, x.IsProper) →
    (∀ x ∈ e'.numbers, x.IsProper) → e.toJson = e'.toJson → e = e'
  | .identifier name, e', _, _, h => by
      have hkind := Expr.nodeKind?_eq h
      cases e' with
      | identifier name' =>
          rw [Expr.toJson, Expr.toJson] at h
          rw [Json.identifier_inj h]
      | _ => cases hkind
  | .number value, e', he, he', h => by
      have hkind := Expr.nodeKind?_eq h
      cases e' with
      | number value' =>
          simp only [Expr.toJson, Json.node_cons_eq_iff, and_true] at h
          rw [Json.ofNumber_inj (he _ List.mem_cons_self) (he' _ List.mem_cons_self) h]
      | _ => cases hkind
  | .string value, e', _, _, h => by
      have hkind := Expr.nodeKind?_eq h
      cases e' with
      | string value' =>
          simp only [Expr.toJson, Json.node_cons_eq_iff, Json.string.injEq, and_true] at h
          rw [h]
      | _ => cases hkind
  | .boolean value, e', _, _, h => by
      have hkind := Expr.nodeKind?_eq h
      cases e' with
      | boolean value' =>
          simp only [Expr.toJson, Json.node_cons_eq_iff, Json.boolean.injEq, and_true] at h
          rw [h]
      | _ => cases hkind
  | .null, e', _, _, h => by
      have hkind := Expr.nodeKind?_eq h
      cases e' with
      | null => rfl
      | _ => cases hkind
  | .assign op name value, e', he, he', h => by
      have hkind := Expr.nodeKind?_eq h
      cases e' with
      | assign op' name' value' =>
          simp only [Expr.toJson, Json.node_cons_eq_iff, Json.string.injEq, and_true] at h
          obtain ⟨hop, hname, hvalue⟩ := h
          rw [Expr.numbers] at he he'
          rw [eq_of_readBack AssignOp.ofSymbol?_symbol hop, Json.identifier_inj hname,
            Expr.toJson_inj he he' hvalue]
      | assignMember op' object' property' computed' value' =>
          simp only [Expr.toJson, Json.node_cons_eq_iff, and_true] at h
          exact absurd h.2.1 Json.identifier_ne_node
      | _ => cases hkind
  | .assignMember op object property computed value, e', he, he', h => by
      have hkind := Expr.nodeKind?_eq h
      cases e' with
      | assignMember op' object' property' computed' value' =>
          rw [Expr.numbers, List.forall_mem_append, List.forall_mem_append] at he he'
          simp only [Expr.toJson, Json.node_cons_eq_iff, Json.string.injEq, Json.boolean.injEq,
            and_true] at h
          obtain ⟨hop, ⟨hobject, hproperty, hcomputed⟩, hvalue⟩ := h
          rw [eq_of_readBack AssignOp.ofSymbol?_symbol hop, Expr.toJson_inj he.1 he'.1 hobject,
            Expr.toJson_inj he.2.1 he'.2.1 hproperty, hcomputed,
            Expr.toJson_inj he.2.2 he'.2.2 hvalue]
      | assign op' name' value' =>
          simp only [Expr.toJson, Json.node_cons_eq_iff, and_true] at h
          exact absurd h.2.1.symm Json.identifier_ne_node
      | _ => cases hkind
  | .logical op left right, e', he, he', h => by
      have hkind := Expr.nodeKind?_eq h
      cases e' with
      | logical op' left' right' =>
          rw [Expr.numbers, List.forall_mem_append] at he he'
          simp only [Expr.toJson, Json.node_cons_eq_iff, Json.string.injEq, and_true] at h
          obtain ⟨hop, hleft, hright⟩ := h
          rw [eq_of_readBack LogicalOp.ofSymbol?_symbol hop, Expr.toJson_inj he.1 he'.1 hleft,
            Expr.toJson_inj he.2 he'.2 hright]
      | _ => cases hkind
  | .binary op left right, e', he, he', h => by
      have hkind := Expr.nodeKind?_eq h
      cases e' with
      | binary op' left' right' =>
          rw [Expr.numbers, List.forall_mem_append] at he he'
          simp only [Expr.toJson, Json.node_cons_eq_iff, Json.string.injEq, and_true] at h
          obtain ⟨hop, hleft, hright⟩ := h
          rw [eq_of_readBack BinaryOp.ofSymbol?_symbol hop, Expr.toJson_inj he.1 he'.1 hleft,
            Expr.toJson_inj he.2 he'.2 hright]
      | _ => cases hkind
  | .unary op argument, e', he, he', h => by
      have hkind := Expr.nodeKind?_eq h
      cases e' with
      | unary op' argument' =>
          simp only [Expr.toJson, Json.node_cons_eq_iff, Json.string.injEq, and_true] at h
          obtain ⟨hop, hargument⟩ := h
          rw [Expr.numbers] at he he'
          rw [eq_of_readBack UnaryOp.ofSymbol?_symbol hop, Expr.toJson_inj he he' hargument]
      | _ => cases hkind
  | .member object property computed, e', he, he', h => by
      have hkind := Expr.nodeKind?_eq h
      cases e' with
      | member object' property' computed' =>
          rw [Expr.numbers, List.forall_mem_append] at he he'
          simp only [Expr.toJson, Json.node_cons_eq_iff, Json.boolean.injEq, and_true] at h
          obtain ⟨hobject, hproperty, hcomputed⟩ := h
          rw [Expr.toJson_inj he.1 he'.1 hobject, Expr.toJson_inj he.2 he'.2 hproperty, hcomputed]
      | _ => cases hkind
  | .call callee arguments, e', he, he', h => by
      have hkind := Expr.nodeKind?_eq h
      cases e' with
      | call callee' arguments' =>
          rw [Expr.numbers, List.forall_mem_append] at he he'
          simp only [Expr.toJson, Json.node_cons_eq_iff, Json.array.injEq, and_true] at h
          obtain ⟨hcallee, harguments⟩ := h
          rw [Expr.toJson_inj he.1 he'.1 hcallee, Expr.listToJson_inj he.2 he'.2 harguments]
      | _ => cases hkind
  | .new callee arguments, e', he, he', h => by
      have hkind := Expr.nodeKind?_eq h
      cases e' with
      | new callee' arguments' =>
          rw [Expr.numbers, List.forall_mem_append] at he he'
          simp only [Expr.toJson, Json.node_cons_eq_iff, Json.array.injEq, and_true] at h
          obtain ⟨hcallee, harguments⟩ := h
          rw [Expr.toJson_inj he.1 he'.1 hcallee, Expr.listToJson_inj he.2 he'.2 harguments]
      | _ => cases hkind
  | .this, e', _, _, h => by
      have hkind := Expr.nodeKind?_eq h
      cases e' with
      | this => rfl
      | _ => cases hkind
  | .super, e', _, _, h => by
      have hkind := Expr.nodeKind?_eq h
      cases e' with
      | super => rfl
      | _ => cases hkind

theorem Expr.listToJson_inj : ∀ {es es' : List Expr}, (∀ x ∈ Expr.listNumbers es, x.IsProper) →
    (∀ x ∈ Expr.listNumbers es', x.IsProper) → Expr.listToJson es = Expr.listToJson es' → es = es'
  | [], [], _, _, _ => rfl
  | [], _ :: _, _, _, h => by
      rw [Expr.listToJson, Expr.listToJson] at h
      cases h
  | _ :: _, [], _, _, h => by
      rw [Expr.listToJson, Expr.listToJson] at h
      cases h
  | e :: es, e' :: es', he, he', h => by
      rw [Expr.listNumbers, List.forall_mem_append] at he he'
      rw [Expr.listToJson, Expr.listToJson, List.cons.injEq] at h
      rw [Expr.toJson_inj he.1 he'.1 h.1, Expr.listToJson_inj he.2 he'.2 h.2]

end

theorem Expr.toJson_ne_null (e : Expr) : e.toJson ≠ .null := by
  cases e <;> rw [Expr.toJson] <;> exact nofun

theorem Expr.optionToJson_inj {e e' : Option Expr} (he : ∀ x ∈ Expr.optionNumbers e, x.IsProper)
    (he' : ∀ x ∈ Expr.optionNumbers e', x.IsProper)
    (h : Expr.optionToJson e = Expr.optionToJson e') : e = e' := by
  cases e with
  | none =>
      cases e' with
      | none => rfl
      | some e' => exact absurd h.symm e'.toJson_ne_null
  | some e =>
      cases e' with
      | none => exact absurd h e.toJson_ne_null
      | some e' => rw [Expr.toJson_inj he he' h]

/-! ## Statements -/

theorem Declaration.toJson_inj {d d' : Declaration}
    (hd : ∀ x ∈ Expr.optionNumbers d.init, x.IsProper)
    (hd' : ∀ x ∈ Expr.optionNumbers d'.init, x.IsProper) (h : d.toJson = d'.toJson) : d = d' := by
  cases d with | mk name init =>
  cases d' with | mk name' init' =>
  simp only [Declaration.toJson, Json.node_cons_eq_iff, and_true] at h
  obtain ⟨hname, hinit⟩ := h
  obtain rfl := Json.identifier_inj hname
  obtain rfl : init = init' := Expr.optionToJson_inj hd hd' hinit
  rfl

theorem Declaration.listToJson_inj {ds ds' : List Declaration}
    (hds : ∀ x ∈ Declaration.listNumbers ds, x.IsProper)
    (hds' : ∀ x ∈ Declaration.listNumbers ds', x.IsProper)
    (h : Declaration.listToJson ds = Declaration.listToJson ds') : ds = ds' := by
  simp only [Declaration.listToJson, Json.node_cons_eq_iff, Json.array.injEq, and_true] at h
  induction ds generalizing ds' with
  | nil =>
      cases ds' with
      | nil => rfl
      | cons d' ds' => cases h
  | cons d ds ih =>
      cases ds' with
      | nil => cases h
      | cons d' ds' =>
          rw [Declaration.listNumbers, List.flatMap_cons, List.forall_mem_append] at hds hds'
          rw [List.map_cons, List.map_cons, List.cons.injEq] at h
          rw [Declaration.toJson_inj hds.1 hds'.1 h.1, ih hds.2 hds'.2 h.2]

theorem Expr.toJson_ne_declarations (e : Expr) (ds : List Declaration) :
    e.toJson ≠ Declaration.listToJson ds := by
  intro h
  have hkind := congrArg Json.nodeKind? h
  rw [Expr.nodeKind?_toJson, Declaration.listToJson, Json.nodeKind?_node] at hkind
  cases e <;> cases hkind

theorem ForInit.optionToJson_inj {i i' : Option ForInit}
    (hi : ∀ x ∈ ForInit.optionNumbers i, x.IsProper)
    (hi' : ∀ x ∈ ForInit.optionNumbers i', x.IsProper)
    (h : ForInit.optionToJson i = ForInit.optionToJson i') : i = i' := by
  rcases i with _ | ds | e <;> rcases i' with _ | ds' | e'
  · rfl
  · cases h
  · exact absurd h.symm e'.toJson_ne_null
  · cases h
  · rw [Declaration.listToJson_inj hi hi' h]
  · exact absurd h.symm (e'.toJson_ne_declarations ds)
  · exact absurd h e.toJson_ne_null
  · exact absurd h (e.toJson_ne_declarations ds')
  · rw [Expr.toJson_inj hi hi' h]

theorem Statement.toJson_ne_null (s : Statement) : s.toJson ≠ .null := by
  intro h
  have hkind := congrArg Json.nodeKind? h
  rw [Statement.nodeKind?_toJson] at hkind
  cases hkind

mutual

/-- **A statement is identified by its JSON.** -/
theorem Statement.toJson_inj : ∀ {s s' : Statement}, (∀ x ∈ s.numbers, x.IsProper) →
    (∀ x ∈ s'.numbers, x.IsProper) → s.toJson = s'.toJson → s = s'
  | .expression e, s', hs, hs', h => by
      have hkind := Statement.kind_eq_of_toJson h
      cases s' with
      | expression e' =>
          simp only [Statement.toJson, Json.node_cons_eq_iff, and_true] at h
          rw [Expr.toJson_inj hs hs' h]
      | _ => cases hkind
  | .empty, s', _, _, h => by
      have hkind := Statement.kind_eq_of_toJson h
      cases s' with
      | empty => rfl
      | _ => cases hkind
  | .block body, s', hs, hs', h => by
      have hkind := Statement.kind_eq_of_toJson h
      cases s' with
      | block body' =>
          rw [Statement.numbers] at hs hs'
          simp only [Statement.toJson, Json.node_cons_eq_iff, Json.array.injEq, and_true] at h
          rw [Statement.listToJson_inj hs hs' h]
      | _ => cases hkind
  | .variable declarations, s', hs, hs', h => by
      have hkind := Statement.kind_eq_of_toJson h
      cases s' with
      | «variable» declarations' =>
          rw [Statement.toJson, Statement.toJson] at h
          rw [Declaration.listToJson_inj hs hs' h]
      | _ => cases hkind
  | .ifThen test consequent, s', hs, hs', h => by
      have hkind := Statement.kind_eq_of_toJson h
      cases s' with
      | ifThen test' consequent' =>
          rw [Statement.numbers, List.forall_mem_append] at hs hs'
          simp only [Statement.toJson, Json.node_cons_eq_iff, and_true] at h
          obtain ⟨htest, hconsequent⟩ := h
          rw [Expr.toJson_inj hs.1 hs'.1 htest, Statement.toJson_inj hs.2 hs'.2 hconsequent]
      | ifElse test' consequent' alternate' =>
          simp only [Statement.toJson, Json.node_cons_eq_iff, and_true] at h
          exact absurd h.2.2.symm alternate'.toJson_ne_null
      | _ => cases hkind
  | .ifElse test consequent alternate, s', hs, hs', h => by
      have hkind := Statement.kind_eq_of_toJson h
      cases s' with
      | ifElse test' consequent' alternate' =>
          rw [Statement.numbers, List.forall_mem_append, List.forall_mem_append] at hs hs'
          simp only [Statement.toJson, Json.node_cons_eq_iff, and_true] at h
          obtain ⟨htest, hconsequent, halternate⟩ := h
          rw [Expr.toJson_inj hs.1 hs'.1 htest, Statement.toJson_inj hs.2.1 hs'.2.1 hconsequent,
            Statement.toJson_inj hs.2.2 hs'.2.2 halternate]
      | ifThen test' consequent' =>
          simp only [Statement.toJson, Json.node_cons_eq_iff, and_true] at h
          exact absurd h.2.2 alternate.toJson_ne_null
      | _ => cases hkind
  | .whileLoop test body, s', hs, hs', h => by
      have hkind := Statement.kind_eq_of_toJson h
      cases s' with
      | whileLoop test' body' =>
          rw [Statement.numbers, List.forall_mem_append] at hs hs'
          simp only [Statement.toJson, Json.node_cons_eq_iff, and_true] at h
          obtain ⟨htest, hbody⟩ := h
          rw [Expr.toJson_inj hs.1 hs'.1 htest, Statement.toJson_inj hs.2 hs'.2 hbody]
      | _ => cases hkind
  | .doWhile body test, s', hs, hs', h => by
      have hkind := Statement.kind_eq_of_toJson h
      cases s' with
      | doWhile body' test' =>
          rw [Statement.numbers, List.forall_mem_append] at hs hs'
          simp only [Statement.toJson, Json.node_cons_eq_iff, and_true] at h
          obtain ⟨hbody, htest⟩ := h
          rw [Statement.toJson_inj hs.1 hs'.1 hbody, Expr.toJson_inj hs.2 hs'.2 htest]
      | _ => cases hkind
  | .forLoop init test update body, s', hs, hs', h => by
      have hkind := Statement.kind_eq_of_toJson h
      cases s' with
      | forLoop init' test' update' body' =>
          rw [Statement.numbers, List.forall_mem_append, List.forall_mem_append,
            List.forall_mem_append] at hs hs'
          simp only [Statement.toJson, Json.node_cons_eq_iff, and_true] at h
          obtain ⟨hinit, htest, hupdate, hbody⟩ := h
          rw [ForInit.optionToJson_inj hs.1 hs'.1 hinit,
            Expr.optionToJson_inj hs.2.1 hs'.2.1 htest,
            Expr.optionToJson_inj hs.2.2.1 hs'.2.2.1 hupdate,
            Statement.toJson_inj hs.2.2.2 hs'.2.2.2 hbody]
      | _ => cases hkind
  | .function name params body, s', hs, hs', h => by
      have hkind := Statement.kind_eq_of_toJson h
      cases s' with
      | function name' params' body' =>
          rw [Statement.numbers] at hs hs'
          simp only [Statement.toJson, Json.node_cons_eq_iff, Json.array.injEq, and_true] at h
          obtain ⟨hname, hparams, hbody⟩ := h
          rw [Json.identifier_inj hname,
            (List.map_inj_right fun _ _ => Json.identifier_inj).1 hparams,
            Statement.listToJson_inj hs hs' hbody]
      | _ => cases hkind
  | .return argument, s', hs, hs', h => by
      have hkind := Statement.kind_eq_of_toJson h
      cases s' with
      | «return» argument' =>
          simp only [Statement.toJson, Json.node_cons_eq_iff, and_true] at h
          rw [Expr.optionToJson_inj hs hs' h]
      | _ => cases hkind
  | .class name superclass body, s', hs, hs', h => by
      have hkind := Statement.kind_eq_of_toJson h
      cases s' with
      | «class» name' superclass' body' =>
          rw [Statement.numbers] at hs hs'
          simp only [Statement.toJson, Json.node_cons_eq_iff, Json.array.injEq, and_true] at h
          obtain ⟨hname, hsuperclass, hbody⟩ := h
          rw [Json.identifier_inj hname, Json.optionIdentifier_inj hsuperclass,
            Statement.listToJson_inj hs hs' hbody]
      | _ => cases hkind

theorem Statement.listToJson_inj : ∀ {ss ss' : List Statement},
    (∀ x ∈ Statement.listNumbers ss, x.IsProper) → (∀ x ∈ Statement.listNumbers ss', x.IsProper) →
    Statement.listToJson ss = Statement.listToJson ss' → ss = ss'
  | [], [], _, _, _ => rfl
  | [], _ :: _, _, _, h => by
      rw [Statement.listToJson, Statement.listToJson] at h
      cases h
  | _ :: _, [], _, _, h => by
      rw [Statement.listToJson, Statement.listToJson] at h
      cases h
  | s :: ss, s' :: ss', hs, hs', h => by
      rw [Statement.listNumbers, List.forall_mem_append] at hs hs'
      rw [Statement.listToJson, Statement.listToJson, List.cons.injEq] at h
      rw [Statement.toJson_inj hs.1 hs'.1 h.1, Statement.listToJson_inj hs.2 hs'.2 h.2]

end

/-- **A program is identified by its JSON.** -/
theorem Program.toJson_inj {p q : Program} (hp : ∀ x ∈ p.numbers, x.IsProper)
    (hq : ∀ x ∈ q.numbers, x.IsProper) (h : p.toJson = q.toJson) : p = q := by
  cases p with | mk body =>
  cases q with | mk body' =>
  simp only [Program.toJson, Json.node_cons_eq_iff, Json.array.injEq, and_true] at h
  exact congrArg Program.mk (Statement.listToJson_inj hp hq h)

/-- **The JSON text identifies the tree.** Two programs whose numbers are finite and not the
negative zero are equal if their compact texts are, or their pretty texts; and a compact text is one
line, without any control characters. -/
theorem json_identifies_program (p q : Program) (hp : ∀ x ∈ p.numbers, x.IsProper)
    (hq : ∀ x ∈ q.numbers, x.IsProper) :
    (p.toJson.compact = q.toJson.compact → p = q) ∧
      (p.toJson.pretty = q.toJson.pretty → p = q) ∧
      ∀ c ∈ p.toJson.compact.toList, 0x20 ≤ c.toNat := by
  refine ⟨?_, ?_, Json.compact_printable p.toJson⟩
  · intro h
    exact Program.toJson_inj hp hq (Json.compact_injective h)
  · intro h
    exact Program.toJson_inj hp hq (Json.pretty_injective h)

/-- An assignment to a name and one to a member, of the same number, are written differently. -/
theorem json_identifies_program_assignment :
    let zero : Binary64 := .finite false .zero
    let p : Program := ⟨[.expression (.assign .assign "x" (.number zero))]⟩
    let q : Program :=
      ⟨[.expression (.assignMember .assign .this (.identifier "x") false (.number zero))]⟩
    p.numbers = [zero] ∧ q.numbers = [zero] ∧ p.toJson.compact ≠ q.toJson.compact ∧
      p.toJson.pretty ≠ q.toJson.pretty ∧ ∀ c ∈ p.toJson.compact.toList, 0x20 ≤ c.toNat := by
  intro zero p q
  have hzero : Binary64.IsProper (.finite false .zero) := ⟨rfl, by rintro ⟨⟩⟩
  have hp : ∀ x ∈ p.numbers, x.IsProper := List.forall_mem_singleton.2 hzero
  have hq : ∀ x ∈ q.numbers, x.IsProper := List.forall_mem_singleton.2 hzero
  have hne : p ≠ q := by simp [p, q]
  obtain ⟨hcompact, hpretty, hprintable⟩ := json_identifies_program p q hp hq
  exact ⟨rfl, rfl, mt hcompact hne, mt hpretty hne, hprintable⟩

end LetterLang
