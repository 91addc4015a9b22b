import LetterLang.Proofs.Lossless

/-!
# The first match is the longest match

The table of rules is tried in order, and the first rule that matches applies. This is the rule with
the longest match, if the rule of identifiers is left out before a digit and gives way to a keyword
of the same length.

The order of the table is what makes it so. `Rule.precedes` reads off two patterns why the first of
them may stand before the second: they match no common text, or the first matches more. The table
passes this check (`Rule.table_precedes`), and a check that is passed means what it should
(`Rule.outranks_of_precedes`).

- `Rule.first?_eq_some_iff`: the first match is the longest match.
- `Scanner.next_longest_match`: what the scanner does at a cursor before the end of its source.
-/

namespace LetterLang

open Text (isBlank isDigit isWord)

/-! ## Preference among rules -/

namespace Rule

/-- The rule of identifiers does not count where the text starts with a digit. -/
def Counts (rule : Rule) (cs : List Char) : Prop :=
  rule.kind = some .identifier → cs.head?.any isDigit = false

/-- A match of `n` characters by `rule` is preferred to one of `m` characters by `rule'`: it is
longer, or it is a keyword and the other one an identifier of the same length. -/
def Preferred (rule rule' : Rule) (n m : Nat) : Prop :=
  m < n ∨ m = n ∧ rule'.kind = some .identifier ∧ ∃ k, rule.kind = some (.keyword k)

structure IsLongest (cs : List Char) (rule : Rule) (n : Nat) : Prop where
  mem : rule ∈ table
  counts : rule.Counts cs
  length : rule.pattern.matchLength cs = some n
  preferred : ∀ rule' ∈ table, rule' ≠ rule → rule'.Counts cs →
    ∀ m, rule'.pattern.matchLength cs = some m → Preferred rule rule' n m

/-- Of two rules the first is preferred wherever both match and the second counts. -/
def Outranks (rule rule' : Rule) : Prop :=
  ∀ cs n m, rule.pattern.matchLength cs = some n → rule'.pattern.matchLength cs = some m →
    rule'.Counts cs → Preferred rule rule' n m

end Rule

/-! ## What a match starts with -/

theorem Text.head?_dropWhile (f : Char → Bool) (cs : List Char) :
    (cs.dropWhile f).head?.any f = false := by
  have hnot := List.head?_dropWhile_not f cs
  cases hhead : (cs.dropWhile f).head? with
  | none => rfl
  | some c =>
      rw [hhead] at hnot
      exact hnot

/-- The class of a character, as far as rules are told apart by it: blank, word or neither. -/
def Text.family (c : Char) : Option CharClass :=
  if isBlank c then some .blank else if isWord c then some .word else none

namespace Pattern

def family : Pattern → Option CharClass
  | .run .blank => some .blank
  | .run .digit | .run .word | .wholeWord _ => some .word
  | _ => none

/-- The texts of which one stands at the start of each match, for a pattern that is no run. -/
def beginnings : Pattern → List (List Char)
  | .run _ => []
  | .literal word | .wholeWord word => [word]
  | .oneOf choices | .pairOrOne choices _ => choices.map ([·])
  | .pair choices second => choices.map ([·, second])
  | .lineComment => [['/', '/']]
  | .blockComment => [['/', '*']]
  | .quoted quote => [[quote]]

def isSingle : Pattern → Bool
  | .oneOf _ | .literal [_] => true
  | _ => false

def isLong : Pattern → Bool
  | .pair _ _ | .lineComment | .blockComment => true
  | _ => false

variable {p q : Pattern} {cs : List Char} {n m : Nat}

theorem prefix_of_take {word tail : List Char} (h : cs.take n = word ++ tail) : word <+: cs :=
  (List.prefix_append word tail).trans (h ▸ List.take_prefix n cs)

theorem exists_beginning (h : p.matchLength cs = some n) :
    (∃ cls, p = .run cls) ∨ ∃ word ∈ p.beginnings, word <+: cs := by
  cases p with
  | run cls => exact .inl ⟨cls, rfl⟩
  | literal word =>
      have htake := take_literal h
      exact .inr ⟨word, List.mem_singleton_self _, htake ▸ List.take_prefix n cs⟩
  | wholeWord word =>
      obtain ⟨htake, -⟩ := take_wholeWord h
      exact .inr ⟨word, List.mem_singleton_self _, htake ▸ List.take_prefix n cs⟩
  | oneOf choices =>
      obtain ⟨c, hc, htake⟩ := take_oneOf h
      exact .inr ⟨[c], List.mem_map_of_mem hc, htake ▸ List.take_prefix n cs⟩
  | pair choices second =>
      obtain ⟨c, hc, htake⟩ := take_pair h
      exact .inr ⟨[c, second], List.mem_map_of_mem hc, htake ▸ List.take_prefix n cs⟩
  | pairOrOne choices second =>
      obtain ⟨c, hc, htake | htake⟩ := take_pairOrOne h
      · exact .inr ⟨[c], List.mem_map_of_mem hc, htake ▸ List.take_prefix n cs⟩
      · exact .inr ⟨[c], List.mem_map_of_mem hc, prefix_of_take htake⟩
  | lineComment =>
      obtain ⟨body, htake, -⟩ := take_lineComment h
      exact .inr ⟨['/', '/'], List.mem_singleton_self _, prefix_of_take htake⟩
  | blockComment =>
      obtain ⟨body, htake, -⟩ := take_blockComment h
      exact .inr ⟨['/', '*'], List.mem_singleton_self _, prefix_of_take htake⟩
  | quoted quote =>
      obtain ⟨body, -, htake⟩ := take_quoted h
      exact .inr ⟨[quote], List.mem_singleton_self _, prefix_of_take htake⟩

theorem eq_one_of_isSingle (hp : p.isSingle = true) (h : p.matchLength cs = some n) : n = 1 := by
  obtain ⟨h, -⟩ := matchLength_eq_some.1 h
  unfold isSingle at hp
  split at hp
  · cases cs with
    | nil => cases h
    | cons c cs =>
        simp only [accepted, Option.ite_none_right_eq_some, Option.some.injEq] at h
        exact h.2.symm
  · simp only [accepted, Option.ite_none_right_eq_some, Option.some.injEq] at h
    exact h.2.symm
  · cases hp

theorem two_le_of_isLong (hp : p.isLong = true) (h : p.matchLength cs = some n) : 2 ≤ n := by
  obtain ⟨hacc, -⟩ := matchLength_eq_some.1 h
  unfold isLong at hp
  split at hp
  · match cs with
    | [] | [_] => cases hacc
    | c :: d :: cs =>
        simp only [accepted, Option.ite_none_right_eq_some, Option.some.injEq] at hacc
        exact Nat.le_of_eq hacc.2
  · obtain ⟨tail, -, rfl⟩ := eq_of_accepted_lineComment hacc
    exact Nat.le_add_right 2 _
  · obtain ⟨body, rest, -, -, rfl⟩ := matchLength_blockComment_iff.1 h
    exact Nat.le_add_left 2 (body.length + 2)
  · cases hp

def isUniform (p : Pattern) : Bool :=
  p.beginnings.all fun word => word.head?.any fun c => Text.family c = p.family

theorem matchLength_nil (p : Pattern) : p.matchLength [] = none := by
  cases p with
  | literal word => cases word <;> rfl
  | wholeWord word => cases word <;> rfl
  | _ => rfl

theorem contains_of_run {cls : CharClass} {c : Char}
    (h : (Pattern.run cls).matchLength (c :: cs) = some n) : cls.contains c = true := by
  obtain ⟨-, -, hne⟩ := take_run h
  cases hc : cls.contains c with
  | true => rfl
  | false =>
      rw [List.takeWhile_cons, hc] at hne
      exact absurd rfl hne

/-- A match starts with a character of the class of its pattern. -/
theorem family_of_matchLength {c : Char} (hp : p.isUniform = true)
    (h : p.matchLength (c :: cs) = some n) : Text.family c = p.family := by
  rcases exists_beginning h with ⟨cls, rfl⟩ | ⟨word, hmem, hstart⟩
  · have hc := contains_of_run h
    cases cls with
    | blank => exact if_pos hc
    | digit =>
        have hw := Text.isWord_of_isDigit hc
        simp [Text.family, family, hw, Text.isBlank_of_isWord hw]
    | word => simp [Text.family, family, show isWord c = true from hc, Text.isBlank_of_isWord hc]
  · have hfamily := List.all_eq_true.1 hp word hmem
    cases word with
    | nil => cases hfamily
    | cons d word =>
        obtain ⟨rfl, -⟩ := List.cons_prefix_cons.1 hstart
        exact of_decide_eq_true hfamily

theorem takeWhile_of_wholeWord {word : List Char} (hword : word.all isWord = true)
    (h : (Pattern.wholeWord word).matchLength cs = some n) :
    cs.takeWhile isWord = word ∧ word.length = n := by
  obtain ⟨htake, hdrop⟩ := take_wholeWord h
  constructor
  · rw [← List.take_append_drop n cs, htake]
    exact Text.takeWhile_append (List.all_eq_true.1 hword) hdrop
  · obtain ⟨h, -⟩ := matchLength_eq_some.1 h
    simp only [accepted, Option.ite_none_right_eq_some, Option.some.injEq] at h
    exact h.2

end Pattern

/-! ## The order of the table -/

namespace Rule

open Pattern

def isKeyword (rule : Rule) : Bool :=
  match rule.kind with
  | some (.keyword _) => true
  | _ => false

/-- Whether two patterns show that the first rule may stand before the second. -/
def precedes (rule rule' : Rule) : Bool :=
  match rule.pattern, rule'.pattern with
  | .wholeWord word, .wholeWord word' => word.all isWord && word'.all isWord && word ≠ word'
  | .wholeWord word, .run .digit => word.head?.any fun c => !isDigit c
  | .wholeWord word, .run .word =>
    word.all isWord && rule.isKeyword && rule'.kind = some .identifier
  | .run .digit, .run .word => rule'.kind = some .identifier
  | p, q => p.family ≠ q.family || p.family = none && (p.isLong && q.isSingle ||
      p.beginnings.all fun word => q.beginnings.all fun word' =>
        !word.isPrefixOf word' && !word'.isPrefixOf word)

theorem table_isUniform : ∀ rule ∈ table, rule.pattern.isUniform = true := by
  decide +kernel

theorem table_precedes : table.Pairwise fun rule rule' => precedes rule rule' = true := by
  decide +kernel

variable {rule rule' : Rule}

/-- Two patterns with no comparable beginnings match no common text. -/
theorem not_both_of_beginnings {p q : Pattern} {cs : List Char} {n m : Nat}
    (hp : p.family = none) (hq : q.family = none)
    (h : p.beginnings.all (fun word => q.beginnings.all fun word' =>
      !word.isPrefixOf word' && !word'.isPrefixOf word) = true)
    (hn : p.matchLength cs = some n) (hm : q.matchLength cs = some m) : False := by
  rcases exists_beginning hn with ⟨cls, rfl⟩ | ⟨word, hmem, hstart⟩
  · cases cls <;> cases hp
  rcases exists_beginning hm with ⟨cls, rfl⟩ | ⟨word', hmem', hstart'⟩
  · cases cls <;> cases hq
  have hapart := List.all_eq_true.1 (List.all_eq_true.1 h word hmem) word' hmem'
  simp only [Bool.and_eq_true, Bool.not_eq_true', ← Bool.not_eq_true,
    List.isPrefixOf_iff_prefix] at hapart
  rcases List.prefix_or_prefix_of_prefix hstart hstart' with hle | hle
  · exact hapart.1 hle
  · exact hapart.2 hle

theorem not_both_of_digits {word cs : List Char} {n m : Nat}
    (hword : word.head?.any (fun c => !isDigit c) = true)
    (hn : (Pattern.wholeWord word).matchLength cs = some n)
    (hm : (Pattern.run .digit).matchLength cs = some m) : False := by
  obtain ⟨c, hhead, hnot⟩ := (Option.any_eq_true _ _).1 hword
  obtain ⟨tail, rfl⟩ := List.head?_eq_some_iff.1 hhead
  obtain ⟨rest, rfl⟩ : c :: tail <+: cs := (take_wholeWord hn).1 ▸ List.take_prefix n cs
  have hdigit : isDigit c = true := contains_of_run hm
  simp [hdigit] at hnot

theorem length_eq_of_both_words {word cs : List Char} {n m : Nat} (hword : word.all isWord = true)
    (hn : (Pattern.wholeWord word).matchLength cs = some n)
    (hm : (Pattern.run .word).matchLength cs = some m) : m = n := by
  obtain ⟨hrun, hlength⟩ := takeWhile_of_wholeWord hword hn
  have hm : (cs.takeWhile isWord).length = m := by
    simpa [CharClass.contains] using (matchLength_eq_some.1 hm).1
  rw [← hm, hrun, hlength]

theorem exists_keyword_of_isKeyword (h : rule.isKeyword = true) :
    ∃ k, rule.kind = some (.keyword k) := by
  unfold isKeyword at h
  split at h
  · next k hk => exact ⟨k, hk⟩
  · cases h

/-- A check that is passed means that the first rule is preferred. -/
theorem outranks_of_precedes (hu : rule.pattern.isUniform = true)
    (hu' : rule'.pattern.isUniform = true) (h : precedes rule rule' = true) :
    Outranks rule rule' := by
  intro cs n m hn hm hcounts
  cases cs with
  | nil =>
      rw [matchLength_nil] at hn
      cases hn
  | cons c cs =>
      have hfamily := (family_of_matchLength hu hn).symm.trans (family_of_matchLength hu' hm)
      unfold precedes at h
      split at h
      · next word word' hp hq =>
        rw [hp] at hn
        rw [hq] at hm
        simp only [Bool.and_eq_true, decide_eq_true_eq] at h
        obtain ⟨⟨hword, hword'⟩, hne⟩ := h
        have heq := (takeWhile_of_wholeWord hword hn).1
        have heq' := (takeWhile_of_wholeWord hword' hm).1
        exact absurd (heq.symm.trans heq') hne
      · next word hp hq => exact (not_both_of_digits h (hp ▸ hn) (hq ▸ hm)).elim
      · next word hp hq =>
        simp only [Bool.and_eq_true, decide_eq_true_eq] at h
        obtain ⟨⟨hword, hkeyword⟩, hidentifier⟩ := h
        have htie := length_eq_of_both_words hword (hp ▸ hn) (hq ▸ hm)
        exact .inr ⟨htie, hidentifier, exists_keyword_of_isKeyword hkeyword⟩
      · next hp hq =>
        rw [hp] at hn
        have hdigit : isDigit c = true := contains_of_run hn
        have hnot : isDigit c = false := hcounts (of_decide_eq_true h)
        rw [hdigit] at hnot
        cases hnot
      · simp only [Bool.or_eq_true, Bool.and_eq_true, decide_eq_true_eq] at h
        rcases h with hne | ⟨hsymbol, ⟨hlong, hsingle⟩ | happart⟩
        · exact absurd hfamily hne
        · left
          rw [eq_one_of_isSingle hsingle hm]
          exact two_le_of_isLong hlong hn
        · exact (not_both_of_beginnings hsymbol (hfamily ▸ hsymbol) happart hn hm).elim

/-- **Earlier rules are preferred to later ones.** -/
theorem table_outranks : table.Pairwise Outranks := by
  refine table_precedes.imp_of_mem ?_
  intro rule rule' hmem hmem' h
  exact outranks_of_precedes (table_isUniform rule hmem) (table_isUniform rule' hmem') h

/-! ## The longest match -/

variable {cs : List Char} {n : Nat}

/-- Where an identifier is read the text does not start with a digit. -/
theorem counts_of_first? (h : first? cs = some (rule, n)) : rule.Counts cs := by
  intro hkind
  obtain ⟨kind, pattern⟩ := rule
  obtain rfl : kind = some .identifier := hkind
  have hname : Lexeme.isName (String.ofList (cs.take n)) = true := first?_spelled h
  obtain ⟨⟨c, tail, htake, hdigit⟩, -⟩ := Lexeme.isName_chars hname
  rw [String.toList_ofList] at htake
  obtain ⟨rest, rfl⟩ : [c] <+: cs := prefix_of_take htake
  exact hdigit

theorem exists_cons_of_first? (h : first? cs = some (rule, n)) : ∃ c cs', cs = c :: cs' := by
  refine List.exists_cons_of_ne_nil ?_
  rintro rfl
  cases h

theorem isLongest_of_first? (h : first? cs = some (rule, n)) : IsLongest cs rule n := by
  have hcounts := counts_of_first? h
  obtain ⟨before, r, after, htable, hr, hnone⟩ := List.findSome?_eq_some_iff.1 h
  obtain ⟨m, hm, he⟩ := Option.map_eq_some_iff.1 hr
  cases he
  refine ⟨?_, hcounts, hm, ?_⟩
  · rw [htable]
    exact List.mem_append_right _ List.mem_cons_self
  · intro rule' hmem hne hcounts' m hm'
    rw [htable, List.mem_append, List.mem_cons] at hmem
    have hpairs := table_outranks
    rw [htable, List.pairwise_append, List.pairwise_cons] at hpairs
    rcases hmem with hbefore | heq | hafter
    · have hnot := hnone rule' hbefore
      rw [hm'] at hnot
      cases hnot
    · exact absurd heq hne
    · exact hpairs.2.1.1 rule' hafter _ _ _ hm hm' hcounts'

theorem Preferred.asymm {n m : Nat} (h : Preferred rule rule' n m) :
    ¬ Preferred rule' rule m n := by
  rcases h with hlt | ⟨rfl, hidentifier, -⟩
  · rintro (hlt' | ⟨rfl, -⟩)
    · exact Nat.lt_asymm hlt hlt'
    · exact Nat.lt_irrefl _ hlt
  · rintro (hlt | ⟨-, -, k, hkeyword⟩)
    · exact Nat.lt_irrefl _ hlt
    · rw [hidentifier] at hkeyword
      cases hkeyword

theorem IsLongest.unique {n m : Nat} (h : IsLongest cs rule n) (h' : IsLongest cs rule' m) :
    rule = rule' ∧ n = m := by
  by_cases heq : rule = rule'
  · subst heq
    exact ⟨rfl, Option.some.inj (h.length.symm.trans h'.length)⟩
  · have hpref := h.preferred rule' h'.mem (Ne.symm heq) h'.counts m h'.length
    have hpref' := h'.preferred rule h.mem heq h.counts n h.length
    exact absurd hpref' hpref.asymm

theorem IsLongest.le {m : Nat} (h : IsLongest cs rule n) (hmem : rule' ∈ table)
    (hcounts : rule'.Counts cs) (hm : rule'.pattern.matchLength cs = some m) : m ≤ n := by
  by_cases heq : rule' = rule
  · subst heq
    exact Nat.le_of_eq (Option.some.inj (hm.symm.trans h.length))
  · rcases h.preferred rule' hmem heq hcounts m hm with hlt | ⟨rfl, -⟩
    · exact Nat.le_of_lt hlt
    · exact Nat.le_refl _

/-- **The first match is the longest match.** -/
theorem first?_eq_some_iff : first? cs = some (rule, n) ↔ IsLongest cs rule n := by
  refine ⟨isLongest_of_first?, fun h => ?_⟩
  cases hfirst : first? cs with
  | none =>
      have hnone := firstOf_eq_none.1 (show firstOf table cs = none from hfirst) rule h.mem
      cases hnone.symm.trans h.length
  | some found =>
      obtain ⟨rule', m⟩ := found
      obtain ⟨rfl, rfl⟩ := (isLongest_of_first? hfirst).unique h
      rfl

theorem eq_keyword_of_mem (hmem : rule ∈ table)
    (h : rule.isKeyword = true ∨ ∃ word, rule.pattern = .wholeWord word) :
    ∃ k : Keyword, rule = keyword k := by
  simp only [table, List.mem_append, List.mem_map] at hmem
  rcases hmem with ((((htrivia | ⟨d, -, rfl⟩) | ⟨k, -, rfl⟩) | hwords) | hoperators) | hstrings
  · simp only [trivia, List.mem_cons, List.not_mem_nil, or_false] at htrivia
    rcases htrivia with rfl | rfl | rfl <;> simp [isKeyword] at h
  · simp [delimiter, isKeyword] at h
  · exact ⟨k, rfl⟩
  · simp only [words, List.mem_cons, List.not_mem_nil, or_false] at hwords
    rcases hwords with rfl | rfl <;> simp [isKeyword] at h
  · simp only [operators, List.mem_cons, List.not_mem_nil, or_false] at hoperators
    rcases hoperators with rfl | rfl | rfl | rfl | rfl | rfl | rfl | rfl | rfl <;>
      simp [isKeyword] at h
  · simp only [strings, List.mem_cons, List.not_mem_nil, or_false] at hstrings
    rcases hstrings with rfl | rfl <;> simp [isKeyword] at h

/-- **Keywords stand whole.** A keyword is taken exactly where it is the whole run of word
characters. -/
theorem isLongest_keyword_iff {k : Keyword} :
    (∃ rule n, IsLongest cs rule n ∧ rule.kind = some (.keyword k)) ↔
      cs.takeWhile isWord = k.text.toList := by
  constructor
  · rintro ⟨rule, n, h, hkind⟩
    have hkeyword : rule.isKeyword = true := by rw [isKeyword, hkind]
    obtain ⟨k', rfl⟩ := eq_keyword_of_mem h.mem (.inl hkeyword)
    obtain rfl : k' = k := by simpa [keyword] using hkind
    exact (takeWhile_of_wholeWord (List.all_eq_true.2 k'.isWord_text) h.length).1
  · intro hrun
    have hfirst := first?_keyword k (Text.head?_dropWhile isWord cs)
    rw [← hrun, List.takeWhile_append_dropWhile] at hfirst
    exact ⟨_, _, isLongest_of_first? hfirst, rfl⟩

end Rule

/-! ## Text that no rule matches -/

namespace Text

def operatorChars : List Char :=
  ['=', '!', '*', '/', '+', '-', '<', '>', '&', '|']

/-- A block comment starts at the text, and nothing behind its opening closes it. -/
def OpensComment (cs : List Char) : Prop :=
  ∃ tail, cs = '/' :: '*' :: tail ∧ ¬ ['*', '/'] <:+: tail

/-- A character that starts neither a token nor text to be skipped. -/
def IsForeign (c : Char) : Prop :=
  isBlank c = false ∧ isWord c = false ∧ (∀ d : Delimiter, c ≠ d.char) ∧ c ∉ operatorChars ∧
    c ≠ '"' ∧ c ≠ '\''

end Text

namespace Pattern

variable {c : Char} {cs : List Char}

theorem contains_of_run_eq_none {cls : CharClass}
    (h : (Pattern.run cls).matchLength (c :: cs) = none) : cls.contains c = false := by
  cases hc : cls.contains c with
  | false => rfl
  | true => simp [matchLength, hc] at h

theorem not_mem_of_pairOrOne {choices : List Char} {second : Char}
    (h : (Pattern.pairOrOne choices second).matchLength (c :: cs) = none) : c ∉ choices := by
  intro hc
  by_cases hd : cs.head? = some second
  · simp [matchLength, hc, hd] at h
  · simp [matchLength, hc, hd] at h

theorem not_mem_of_quoted {quote : Char}
    (h : (Pattern.quoted quote).matchLength (quote :: cs) = none) : quote ∉ cs := by
  intro hmem
  obtain ⟨body, rest, rfl, hnot⟩ := List.eq_append_cons_of_mem hmem
  cases h.symm.trans (matchLength_quoted_iff.2 ⟨body, rest, rfl, hnot, rfl⟩)

theorem untilCommentEnd_eq_none_iff : untilCommentEnd cs = none ↔ ¬ ['*', '/'] <:+: cs := by
  fun_induction untilCommentEnd cs with
  | case1 tail =>
      have hinner : ['*', '/'] <:+: '*' :: '/' :: tail := (List.prefix_append _ tail).isInfix
      simp [hinner]
  | case2 c cs hfirst ih =>
      rw [Option.map_eq_none_iff, ih, List.infix_cons_iff, not_or]
      refine ⟨fun h => ⟨?_, h⟩, And.right⟩
      intro hstart
      obtain ⟨rfl, tail, htail⟩ := List.cons_prefix_cons.1 hstart
      exact hfirst tail rfl htail.symm
  | case3 => simp

end Pattern

namespace Rule

open Text

variable {c : Char} {cs : List Char}

theorem not_mem_of_first? {quote : Char} (h : first? (quote :: cs) = none)
    (hq : quote = '"' ∨ quote = '\'') : quote ∉ cs := by
  have hnone : ∀ rule ∈ table, rule.pattern.matchLength (quote :: cs) = none := firstOf_eq_none.1 h
  have hquoted : (Pattern.quoted quote).matchLength (quote :: cs) = none := by
    rcases hq with rfl | rfl
    · exact hnone ⟨some .string, .quoted '"'⟩ (by simp [table, strings])
    · exact hnone ⟨some .string, .quoted '\''⟩ (by simp [table, strings])
  exact Pattern.not_mem_of_quoted hquoted

/-- Every operator character but two is an operator by itself. -/
theorem operatorChars_of_first? (h : first? (c :: cs) = none) (hc : c ∈ operatorChars) :
    c = '&' ∧ cs.head? ≠ some '&' ∨ c = '|' ∧ cs.head? ≠ some '|' := by
  have hnone : ∀ rule ∈ table, rule.pattern.matchLength (c :: cs) = none := firstOf_eq_none.1 h
  have hequal : c ≠ '=' := by
    rintro rfl
    cases hnone ⟨some .simpleAssign, .literal ['=']⟩ (by simp [table, operators])
  have hnot : c ≠ '!' := by
    rintro rfl
    cases hnone ⟨some .logicalNot, .literal ['!']⟩ (by simp [table, operators])
  have hadditive : c ≠ '+' ∧ c ≠ '-' := by
    simpa [Pattern.matchLength] using
      hnone ⟨some .additive, .oneOf ['+', '-']⟩ (by simp [table, operators])
  have hmultiplicative : c ≠ '*' ∧ c ≠ '/' := by
    simpa [Pattern.matchLength] using
      hnone ⟨some .multiplicative, .oneOf ['*', '/']⟩ (by simp [table, operators])
  have hrelational : c ≠ '<' ∧ c ≠ '>' := by
    simpa using Pattern.not_mem_of_pairOrOne
      (hnone ⟨some .relational, .pairOrOne ['<', '>'] '='⟩ (by simp [table, operators]))
  have hand : c = '&' → cs.head? ≠ some '&' := by
    rintro rfl hhead
    obtain ⟨tail, rfl⟩ := List.head?_eq_some_iff.1 hhead
    cases hnone ⟨some .logicalAnd, .literal ['&', '&']⟩ (by simp [table, operators])
  have hor : c = '|' → cs.head? ≠ some '|' := by
    rintro rfl hhead
    obtain ⟨tail, rfl⟩ := List.head?_eq_some_iff.1 hhead
    cases hnone ⟨some .logicalOr, .literal ['|', '|']⟩ (by simp [table, operators])
  simp only [operatorChars, List.mem_cons, List.not_mem_nil, or_false, hequal, hnot, hadditive,
    hmultiplicative, hrelational, false_or] at hc
  rcases hc with rfl | rfl
  · exact .inl ⟨rfl, hand rfl⟩
  · exact .inr ⟨rfl, hor rfl⟩

/-- A text that no rule matches starts with a quote that does not come again, with half of an
operator, or with a foreign character. -/
theorem unmatched_of_first? (h : first? (c :: cs) = none) :
    ((c = '"' ∨ c = '\'') ∧ c ∉ cs) ∨
      (¬ (c = '"' ∨ c = '\'') ∧ (c = '&' ∧ cs.head? ≠ some '&' ∨ c = '|' ∧ cs.head? ≠ some '|' ∨
        IsForeign c)) := by
  have hnone : ∀ rule ∈ table, rule.pattern.matchLength (c :: cs) = none := firstOf_eq_none.1 h
  by_cases hq : c = '"' ∨ c = '\''
  · exact .inl ⟨hq, not_mem_of_first? h hq⟩
  · refine .inr ⟨hq, ?_⟩
    by_cases hop : c ∈ operatorChars
    · rcases operatorChars_of_first? h hop with hand | hor
      · exact .inl hand
      · exact .inr (.inl hor)
    · have hblank : isBlank c = false :=
        Pattern.contains_of_run_eq_none (hnone ⟨none, .run .blank⟩ (by simp [table, trivia]))
      have hword : isWord c = false :=
        Pattern.contains_of_run_eq_none
          (hnone ⟨some .identifier, .run .word⟩ (by simp [table, words]))
      have hdelimiter : ∀ d : Delimiter, c ≠ d.char := by
        rintro d rfl
        have hall : d ∈ Delimiter.all := by cases d <;> decide
        have hmem : delimiter d ∈ table := by
          simp only [table, List.mem_append]
          exact .inl (.inl (.inl (.inl (.inr (List.mem_map_of_mem hall)))))
        have hmatch := hnone _ hmem
        simp [delimiter, Pattern.matchLength] at hmatch
      rw [not_or] at hq
      exact .inr (.inr ⟨hblank, hword, hdelimiter, hop, hq⟩)

end Rule

/-! ## The scanner -/

namespace Scanner

open Rule (IsLongest)

variable {s s' : Scanner}

theorem opensComment_iff {cs : List Char} :
    opensComment cs = true ↔ Text.OpensComment cs := by
  unfold opensComment Text.OpensComment
  split
  · next tail =>
    rw [Option.isNone_iff_eq_none, Pattern.untilCommentEnd_eq_none_iff]
    constructor
    · exact fun h => ⟨tail, rfl, h⟩
    · rintro ⟨tail', heq, h⟩
      cases heq
      exact h
  · next hno =>
    refine ⟨nofun, ?_⟩
    rintro ⟨tail, rfl, -⟩
    exact absurd rfl (hno tail)

/-- Where a comment starts and is not left open, it is matched. -/
theorem opensComment_eq_false_iff {cs : List Char} : opensComment cs = false ↔
    (['/', '*'] <+: cs → ∃ n, Pattern.blockComment.matchLength cs = some n) := by
  unfold opensComment
  split
  · next tail =>
    have hstart : ['/', '*'] <+: '/' :: '*' :: tail := List.prefix_append _ tail
    cases hend : Pattern.untilCommentEnd tail with
    | none => simp [Pattern.matchLength, hend, hstart]
    | some m => simp [Pattern.matchLength, hend]
  · next hno =>
    refine ⟨?_, fun _ => rfl⟩
    rintro - ⟨tail, rfl⟩
    exact absurd rfl (hno tail)

theorem length_rest_next_le {r : Except ScanError Token} (h : s.next = (r, s')) :
    s'.rest.length ≤ s.rest.length := by
  fun_induction next s with
  | case1 => cases h; exact Nat.le_refl _
  | case2 => cases h; exact Nat.le_refl _
  | case3 => cases h; exact Nat.le_refl _
  | case4 s _ _ _ n hr ih => exact Nat.le_of_lt (Nat.lt_of_le_of_lt (ih h) (length_rest_advance hr))
  | case5 s _ _ _ _ n hr =>
      cases h
      exact Nat.le_of_lt (length_rest_advance hr)

/-- What the scanner does with a rule that matches `n` characters: it skips them, or they are the
text of a token. -/
def Takes (s : Scanner) (rule : Rule) (n : Nat) : Prop :=
  match rule.kind with
  | none => s.next = (s.advance n).next
  | some kind => s.next = (.ok (.ofChars kind (s.rest.take n) s.position), s.advance n)

theorem takes_of_first? {rule : Rule} {n : Nat} (hc : opensComment s.rest = false)
    (hr : Rule.first? s.rest = some (rule, n)) : s.Takes rule n := by
  obtain ⟨kind, pattern⟩ := rule
  cases kind with
  | none => exact next_of_skip hc hr
  | some kind => exact next_of_token hc hr

/-- The scanner fails at its cursor exactly where no rule matches. -/
theorem next_fails_iff (hs : s.rest ≠ []) (hc : opensComment s.rest = false) :
    (∃ e, s.next = (.error e, s)) ↔ Rule.first? s.rest = none := by
  constructor
  · rintro ⟨e, he⟩
    cases hr : Rule.first? s.rest with
    | none => rfl
    | some found =>
        obtain ⟨⟨kind, pattern⟩, n⟩ := found
        cases kind with
        | none =>
            -- Behind skipped text the scanner does not come back to its cursor.
            rw [next_of_skip hc hr] at he
            have hle := length_rest_next_le he
            exact absurd (length_rest_advance hr) (Nat.not_lt.2 hle)
        | some kind =>
            rw [next_of_token hc hr] at he
            cases he
  · exact fun hr => ⟨_, next_of_unmatched hs hc hr⟩

/-- **The scanner is a longest-match lexer.** At a cursor before the end of the source a block
comment that nothing closes is a failure. Everywhere else the scanner takes the rule with the
longest match, a keyword only if it is the whole run of word characters; it fails at the cursor
exactly if no rule matches, because of a quote that does not come again, or because of the first
character, which is half of an operator or foreign. -/
theorem next_longest_match (s : Scanner) (hs : s.rest ≠ []) :
    (Text.OpensComment s.rest →
      s.next = (.error (.unterminatedComment (UInt32.ofNat s.position)), s)) ∧
    (¬ Text.OpensComment s.rest →
      (∀ rule n, Rule.first? s.rest = some (rule, n) ↔ IsLongest s.rest rule n) ∧
      (∀ rule n, IsLongest s.rest rule n → s.Takes rule n) ∧
      (∀ k : Keyword, (∃ rule n, IsLongest s.rest rule n ∧ rule.kind = some (.keyword k)) ↔
        s.rest.takeWhile isWord = k.text.toList) ∧
      ((∃ e, s.next = (.error e, s)) ↔
        ∀ rule ∈ Rule.table, rule.pattern.matchLength s.rest = none) ∧
      ∀ c cs e, s.rest = c :: cs → s.next = (.error e, s) →
        ((c = '"' ∨ c = '\'') ∧ c ∉ cs ∧ e = .unterminatedString c (UInt32.ofNat s.position)) ∨
        (e = .unexpectedCharacter c (UInt32.ofNat s.position) ∧
          (c = '&' ∧ cs.head? ≠ some '&' ∨ c = '|' ∧ cs.head? ≠ some '|' ∨ Text.IsForeign c))) := by
  rw [← opensComment_iff, Bool.not_eq_true]
  refine ⟨next_of_opensComment, fun hc => ?_⟩
  refine ⟨fun rule n => Rule.first?_eq_some_iff, ?_, fun k => Rule.isLongest_keyword_iff, ?_, ?_⟩
  · intro rule n h
    exact takes_of_first? hc (Rule.first?_eq_some_iff.2 h)
  · rw [next_fails_iff hs hc]
    exact Rule.firstOf_eq_none
  · intro c cs e hrest he
    have hr := (next_fails_iff hs hc).1 ⟨e, he⟩
    rw [next_of_unmatched hs hc hr] at he
    cases he
    rw [hrest] at hr ⊢
    rw [unmatched_cons]
    rcases Rule.unmatched_of_first? hr with ⟨hq, hnot⟩ | ⟨hq, hstart⟩
    · exact .inl ⟨hq, hnot, if_pos hq⟩
    · exact .inr ⟨if_neg hq, hstart⟩

/-- A comment closed by its own opening is not closed, and a keyword with a digit behind it is an
identifier. -/
theorem next_longest_match_slash :
    (Scanner.ofSource "/*/").next = (.error (.unterminatedComment 0), .ofSource "/*/") ∧
      IsLongest "let1".toList ⟨some .identifier, .run .word⟩ 4 := by
  constructor
  · refine (next_longest_match (.ofSource "/*/") (by decide)).1 ?_
    exact opensComment_iff.1 (by decide)
  · have hno : ¬ Text.OpensComment "let1".toList := mt opensComment_iff.2 (by decide)
    exact (((next_longest_match (.ofSource "let1") (by decide)).2 hno).1 _ _).1 rfl

end Scanner

end LetterLang
