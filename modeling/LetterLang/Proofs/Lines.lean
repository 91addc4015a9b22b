import LetterLang.LineMap
import Mathlib.Algebra.Group.Nat.Defs
import Mathlib.Data.List.GetD

/-!
# Lines and columns count newlines

The map of the lines of a text is built from its characters and searched by halving. What a place
means is said here of the bytes of the text alone: the line of a position is the number of newlines
before it, and the column is how far the position lies behind the last of them.

- `Text.newlinesBelow`, `Text.lineStart`: the newlines before a position, and where its line starts.
- `LineMap.toNat_starts`: the starts in a map are those of the bytes. A byte of a newline is part of
  no other character.
- `LineMap.IsCut`: where a position belongs among the starts. There is one such place.
- `LineMap.Answers`: what the search for a position has to come to, and does
  (`LineMap.answers_search`). What is missing never belongs before the first line
  (`LineMap.pos_of_search_missing`).
- `LineMap.locate_counts_newlines`: what the map says about any position, also one past the end.
-/

namespace LetterLang

/-! ## Newlines in bytes -/

namespace Text

def bytes (text : String) : List UInt8 :=
  text.toUTF8.data.toList

/-- The indices below `n` at which a newline stands, in their order. -/
def newlinesBelow (bytes : List UInt8) (n : Nat) : List Nat :=
  (List.range n).filter fun i => bytes[i]? = some 0x0A

/-- The index just after the last newline below `n`, or 0 if there is none. -/
def lineStart (bytes : List UInt8) (n : Nat) : Nat :=
  ((newlinesBelow bytes n).map (· + 1)).getLastD 0

/-- The starts of the lines up to `n`: 0, and the index after each newline. -/
def lineStarts (bytes : List UInt8) (n : Nat) : List Nat :=
  0 :: (newlinesBelow bytes n).map (· + 1)

variable {n m : Nat}

theorem bytes_eq (text : String) : bytes text = text.toList.flatMap String.utf8EncodeChar := by
  have hencode := String.toByteArray_ofList (l := text.toList)
  rw [String.ofList_toList] at hencode
  rw [bytes, String.toUTF8_eq_toByteArray, hencode, List.utf8Encode, List.data_toByteArray]

theorem length_bytes (text : String) : (bytes text).length = text.utf8ByteSize := by
  rw [← String.size_toByteArray, ← String.toUTF8_eq_toByteArray]
  rfl

theorem length_flatMap_utf8EncodeChar (cs : List Char) :
    (cs.flatMap String.utf8EncodeChar).length = byteLength cs := by
  induction cs with
  | nil => rfl
  | cons c cs ih =>
      rw [List.flatMap_cons, List.length_append, ih, String.length_utf8EncodeChar, byteLength_cons]

theorem newlinesBelow_add (bs : List UInt8) (n m : Nat) :
    newlinesBelow bs (n + m) =
      newlinesBelow bs n ++ (newlinesBelow (bs.drop n) m).map (n + ·) := by
  simp only [newlinesBelow, List.range_add, List.filter_append, List.filter_map, List.getElem?_drop]
  rfl

theorem newlinesBelow_append (as bs : List UInt8) (m : Nat) :
    newlinesBelow (as ++ bs) (as.length + m) =
      newlinesBelow as as.length ++ (newlinesBelow bs m).map (as.length + ·) := by
  have hfront : newlinesBelow (as ++ bs) as.length = newlinesBelow as as.length := by
    apply List.filter_congr
    intro i hi
    rw [List.getElem?_append_left (List.mem_range.1 hi)]
  rw [newlinesBelow_add, hfront, List.drop_left]

theorem length_newlinesBelow_le (bs : List UInt8) (n : Nat) : (newlinesBelow bs n).length ≤ n :=
  calc
    (newlinesBelow bs n).length ≤ (List.range n).length := List.length_filter_le _ _
    _ = n := List.length_range

theorem newlinesBelow_of_length_le {bs : List UInt8} (h : bs.length ≤ n) :
    newlinesBelow bs n = newlinesBelow bs bs.length := by
  obtain ⟨m, rfl⟩ := Nat.exists_eq_add_of_le h
  have hnone : newlinesBelow [] m = [] := by simp [newlinesBelow]
  rw [newlinesBelow_add, List.drop_length, hnone]
  exact List.append_nil _

/-- The byte of a newline is part of no other character: the bytes of a character that takes more
than one are all from 128 on. -/
theorem newline_not_mem_utf8EncodeChar {c : Char} (hc : c ≠ '\n') :
    0x0A ∉ String.utf8EncodeChar c := by
  have hval : c.val.toNat ≠ 10 := by
    intro hval
    apply hc
    apply Char.ext
    exact UInt32.toNat_inj.1 hval
  have hbyte : ∀ {x : Nat}, x < 256 → x ≠ 10 → (0x0A : UInt8) ≠ UInt8.ofNat x := by
    intro x hx hne heq
    have htoNat := congrArg UInt8.toNat heq
    rw [UInt8.toNat_ofNat_of_lt' hx] at htoNat
    exact hne htoNat.symm
  simp only [String.utf8EncodeChar]
  split
  · simp only [List.mem_singleton]
    exact hbyte (by omega) hval
  · split
    · simp only [List.mem_cons, List.not_mem_nil, or_false, not_or]
      exact ⟨hbyte (by omega) (by omega), hbyte (by omega) (by omega)⟩
    · split
      · simp only [List.mem_cons, List.not_mem_nil, or_false, not_or]
        exact ⟨hbyte (by omega) (by omega), hbyte (by omega) (by omega),
          hbyte (by omega) (by omega)⟩
      · simp only [List.mem_cons, List.not_mem_nil, or_false, not_or]
        exact ⟨hbyte (by omega) (by omega), hbyte (by omega) (by omega),
          hbyte (by omega) (by omega), hbyte (by omega) (by omega)⟩

theorem newlinesBelow_utf8EncodeChar (c : Char) :
    newlinesBelow (String.utf8EncodeChar c) (String.utf8EncodeChar c).length =
      if c = '\n' then [0] else [] := by
  split
  · next hc =>
    subst hc
    rfl
  · next hc =>
    apply List.filter_eq_nil_iff.2
    intro i _ hi
    exact newline_not_mem_utf8EncodeChar hc (List.mem_of_getElem? (of_decide_eq_true hi))

/-! ### Starts of lines -/

theorem lineStarts_ne_nil (bs : List UInt8) (n : Nat) : lineStarts bs n ≠ [] :=
  List.cons_ne_nil _ _

theorem lineStart_eq (bs : List UInt8) (n : Nat) : lineStart bs n = (lineStarts bs n).getLastD 0 :=
  (List.getLastD_cons ..).symm

theorem le_of_mem_lineStarts {bs : List UInt8} {s : Nat} (h : s ∈ lineStarts bs n) : s ≤ n := by
  rcases List.mem_cons.1 h with rfl | h
  · exact Nat.zero_le n
  · obtain ⟨i, hi, rfl⟩ := List.mem_map.1 h
    exact List.mem_range.1 (List.mem_filter.1 hi).1

theorem lineStart_le (bs : List UInt8) (n : Nat) : lineStart bs n ≤ n := by
  rw [lineStart_eq, List.getLastD_eq_getLast?,
    List.getLast?_eq_some_getLast (lineStarts_ne_nil bs n)]
  exact le_of_mem_lineStarts (List.getLast_mem _)

/-- The lines that start up to `n` come first among all lines. -/
theorem lineStarts_split (bs : List UInt8) (n : Nat) :
    ∃ later, lineStarts bs bs.length = lineStarts bs n ++ later ∧ ∀ s ∈ later, n < s := by
  rcases Nat.le_total bs.length n with hle | hle
  · refine ⟨[], ?_, by simp⟩
    rw [lineStarts, lineStarts, newlinesBelow_of_length_le hle, List.append_nil]
  · obtain ⟨m, hm⟩ := Nat.exists_eq_add_of_le hle
    refine ⟨((newlinesBelow (bs.drop n) m).map (n + ·)).map (· + 1), ?_, ?_⟩
    · rw [lineStarts, hm, newlinesBelow_add, List.map_append]
      rfl
    · simp only [List.mem_map, forall_exists_index, and_imp]
      rintro s _ i - rfl rfl
      omega

theorem pairwise_lineStarts (bs : List UInt8) (n : Nat) : (lineStarts bs n).Pairwise (· < ·) := by
  apply List.Pairwise.cons
  · intro s hs
    obtain ⟨i, -, rfl⟩ := List.mem_map.1 hs
    exact Nat.succ_pos i
  · rw [List.pairwise_map]
    exact (List.pairwise_lt_range.filter _).imp Nat.succ_lt_succ

/-- Further on in a text there are more newlines behind, or the line is the same. -/
theorem newlinesBelow_of_lt (bs : List UInt8) (h : n < m) :
    (newlinesBelow bs n).length < (newlinesBelow bs m).length ∨
      newlinesBelow bs n = newlinesBelow bs m := by
  obtain ⟨k, rfl⟩ := Nat.exists_eq_add_of_le (Nat.le_of_lt h)
  rw [newlinesBelow_add]
  rcases List.eq_nil_or_concat (newlinesBelow (bs.drop n) k) with hnil | ⟨front, last, hlast⟩
  · right
    rw [hnil, List.map_nil, List.append_nil]
  · left
    rw [hlast, List.length_append, List.length_map, List.length_concat]
    exact Nat.lt_add_of_pos_right (Nat.succ_pos _)

end Text

/-- A place on an earlier line, or before another one on the same line. -/
def LineColumn.Before (p q : LineColumn) : Prop :=
  p.line < q.line ∨ p.line = q.line ∧ p.character < q.character

/-! ## The starts in a map -/

namespace LineMap

open Text (bytes newlinesBelow lineStart lineStarts byteLength)

theorem startsAfterNewlines_eq (offset : Nat) (cs : List Char) :
    startsAfterNewlines offset cs =
      (newlinesBelow (cs.flatMap String.utf8EncodeChar) (byteLength cs)).map
        fun i => UInt32.ofNat (offset + i + 1) := by
  induction cs generalizing offset with
  | nil => rfl
  | cons c cs ih =>
      have hsplit := Text.newlinesBelow_append (String.utf8EncodeChar c)
        (cs.flatMap String.utf8EncodeChar) (byteLength cs)
      rw [Text.newlinesBelow_utf8EncodeChar, String.length_utf8EncodeChar] at hsplit
      have hrest : ((newlinesBelow (cs.flatMap String.utf8EncodeChar) (byteLength cs)).map
          (c.utf8Size + ·)).map (fun i => UInt32.ofNat (offset + i + 1)) =
            startsAfterNewlines (offset + c.utf8Size) cs := by
        simp only [ih, List.map_map, Function.comp_def, Nat.add_assoc]
      rw [List.flatMap_cons, Text.byteLength_cons, hsplit, List.map_append, hrest,
        startsAfterNewlines]
      split
      · next hc =>
        subst hc
        rfl
      · rfl

/-- The starts in the map of a text are the starts of its lines. -/
theorem toNat_starts {text : String} (hsize : text.utf8ByteSize < 2 ^ 32) :
    (ofText text).starts.toList.map UInt32.toNat =
      lineStarts (bytes text) (bytes text).length := by
  have hstarts : (ofText text).starts.toList =
      0 :: (newlinesBelow (bytes text) (bytes text).length).map fun i => UInt32.ofNat (i + 1) := by
    rw [Text.bytes_eq, Text.length_flatMap_utf8EncodeChar]
    show 0 :: startsAfterNewlines 0 text.toList = _
    simp only [startsAfterNewlines_eq, Nat.zero_add]
  rw [hstarts, List.map_cons, List.map_map, lineStarts]
  apply congrArg (List.cons 0)
  apply List.map_congr_left
  intro i hi
  have hlt : i < (bytes text).length := List.mem_range.1 (List.mem_filter.1 hi).1
  rw [Text.length_bytes] at hlt
  exact UInt32.toNat_ofNat_of_lt' (Nat.lt_of_le_of_lt hlt hsize)

/-! ## The search -/

/-- The first `n` starts are those that are not after the position. -/
structure IsCut (starts : Array UInt32) (position : UInt32) (n : Nat) : Prop where
  le_size : n ≤ starts.size
  start_le_iff : ∀ i < starts.size, starts.getD i 0 ≤ position ↔ i < n

variable {starts : Array UInt32} {position : UInt32} {n m : Nat}

theorem IsCut.unique (hn : IsCut starts position n) (hm : IsCut starts position m) : n = m := by
  have hle : ∀ {n m}, IsCut starts position n → IsCut starts position m → n ≤ m := by
    intro n m hn hm
    apply Nat.le_of_not_lt
    intro hlt
    have hsize := Nat.lt_of_lt_of_le hlt hn.le_size
    exact Nat.lt_irrefl m ((hm.start_le_iff m hsize).1 ((hn.start_le_iff m hsize).2 hlt))
  exact Nat.le_antisymm (hle hn hm) (hle hm hn)

/-- Each line starts after the ones before it. -/
def Ascending (starts : Array UInt32) : Prop :=
  ∀ i j, i < j → j < starts.size → starts.getD i 0 < starts.getD j 0

/-- What a search has to answer: the line that starts at the position, or, if there is none, how many
start before it. -/
inductive Answers (starts : Array UInt32) (position : UInt32) : Search → Prop
  | found {line} : starts.getD line 0 = position → IsCut starts position (line + 1) →
      Answers starts position (.found line)
  | missing {line} : (∀ i < starts.size, starts.getD i 0 ≠ position) →
      IsCut starts position line → Answers starts position (.missing line)

theorem answers_found (hsorted : Ascending starts) (hsize : n < starts.size)
    (h : starts.getD n 0 = position) : Answers starts position (.found n) := by
  refine .found h ⟨hsize, fun i hi => ⟨fun hle => ?_, fun hlt => ?_⟩⟩
  · apply Nat.lt_succ_of_le (Nat.le_of_not_lt fun hafter => ?_)
    have hlater := hsorted n i hafter hi
    rw [h] at hlater
    exact UInt32.not_le.2 hlater hle
  · rcases Nat.eq_or_lt_of_le (Nat.le_of_lt_succ hlt) with rfl | hbefore
    · exact UInt32.le_of_eq h
    · have hearlier := hsorted i n hbefore hsize
      rw [h] at hearlier
      exact UInt32.le_of_lt hearlier

theorem answers_missing (hsize : n ≤ starts.size) (hbelow : ∀ i < n, starts.getD i 0 < position)
    (habove : ∀ i, n ≤ i → i < starts.size → position < starts.getD i 0) :
    Answers starts position (.missing n) := by
  refine .missing (fun i hi => ?_) ⟨hsize, fun i hi => ?_⟩
  · rcases Nat.lt_or_ge i n with hlt | hge
    · exact UInt32.ne_of_lt (hbelow i hlt)
    · exact (UInt32.ne_of_lt (habove i hge hi)).symm
  · rcases Nat.lt_or_ge i n with hlt | hge
    · exact iff_of_true (UInt32.le_of_lt (hbelow i hlt)) hlt
    · exact iff_of_false (UInt32.not_le.2 (habove i hge hi)) (Nat.not_lt.2 hge)

/-- The search narrows down where the starts pass the position, and ends on it or there. -/
theorem answers_searchBetween (low high : Nat) (hsorted : Ascending starts) (hle : low ≤ high)
    (hsize : high ≤ starts.size) (hbelow : ∀ i < low, starts.getD i 0 < position)
    (habove : ∀ i, high ≤ i → i < starts.size → position < starts.getD i 0) :
    Answers starts position (searchBetween starts position low high) := by
  fun_induction searchBetween starts position low high with
  | case1 low high hlt middle start hfound => exact answers_found hsorted (by omega) hfound
  | case2 low high hlt middle start hne hless ih =>
      have hmid : low ≤ middle ∧ middle < high := by omega
      apply ih (by omega) hsize _ habove
      intro i hi
      rcases Nat.eq_or_lt_of_le (Nat.le_of_lt_succ hi) with rfl | hbefore
      · exact hless
      · exact UInt32.lt_trans (hsorted i middle hbefore (by omega)) hless
  | case3 low high hlt middle start hne hnotless ih =>
      have hmid : low ≤ middle ∧ middle < high := by omega
      have hgreater : position < starts.getD middle 0 :=
        UInt32.lt_of_le_of_ne (UInt32.not_lt.1 hnotless) (Ne.symm hne)
      apply ih (by omega) (by omega) hbelow
      intro i hi hisize
      rcases Nat.eq_or_lt_of_le hi with rfl | hafter
      · exact hgreater
      · exact UInt32.lt_trans hgreater (hsorted middle i hafter hisize)
  | case4 low high hge =>
      obtain rfl : low = high := by omega
      exact answers_missing hsize hbelow habove

theorem toNat_getD_starts (starts : Array UInt32) (i : Nat) :
    (starts.getD i 0).toNat = (starts.toList.map UInt32.toNat).getD i 0 := by
  rw [Array.getD_eq_getD_getElem?, List.getD_eq_getElem?_getD, List.getElem?_map,
    Array.getElem?_toList]
  cases starts[i]? <;> rfl

section Text

variable {text : String}

theorem size_starts (hsize : text.utf8ByteSize < 2 ^ 32) :
    (ofText text).starts.size = (lineStarts (bytes text) (bytes text).length).length := by
  rw [← toNat_starts hsize, List.length_map, Array.length_toList]

theorem toNat_getD_ofText (hsize : text.utf8ByteSize < 2 ^ 32) (i : Nat) :
    ((ofText text).starts.getD i 0).toNat =
      (lineStarts (bytes text) (bytes text).length).getD i 0 := by
  rw [toNat_getD_starts, toNat_starts hsize]

theorem starts_ascending (hsize : text.utf8ByteSize < 2 ^ 32) :
    Ascending (ofText text).starts := by
  intro i j hij hj
  rw [size_starts hsize] at hj
  rw [UInt32.lt_iff_toNat_lt, toNat_getD_ofText hsize, toNat_getD_ofText hsize,
    List.getD_eq_getElem _ _ hj, List.getD_eq_getElem _ _ (Nat.lt_trans hij hj)]
  exact List.pairwise_iff_getElem.1 (Text.pairwise_lineStarts _ _) i j _ hj hij

/-- As many starts are not after the position as lines start up to it. -/
theorem isCut_lineStarts (hsize : text.utf8ByteSize < 2 ^ 32) (position : UInt32) :
    IsCut (ofText text).starts position (lineStarts (bytes text) position.toNat).length := by
  obtain ⟨later, hall, hlater⟩ := Text.lineStarts_split (bytes text) position.toNat
  constructor
  · rw [size_starts hsize, hall, List.length_append]
    exact Nat.le_add_right _ _
  · intro i hi
    rw [size_starts hsize, hall] at hi
    rw [UInt32.le_iff_toNat_le, toNat_getD_ofText hsize, hall, List.getD_eq_getElem _ _ hi]
    rcases Nat.lt_or_ge i (lineStarts (bytes text) position.toNat).length with hlt | hge
    · rw [List.getElem_append_left hlt]
      simp only [hlt, iff_true]
      exact Text.le_of_mem_lineStarts (List.getElem_mem hlt)
    · rw [List.getElem_append_right hge]
      simp only [Nat.not_lt.2 hge, iff_false, Nat.not_le]
      exact hlater _ (List.getElem_mem _)

theorem answers_search (hsize : text.utf8ByteSize < 2 ^ 32) (position : UInt32) :
    Answers (ofText text).starts position ((ofText text).search position) := by
  apply answers_searchBetween 0 _ (starts_ascending hsize) (Nat.zero_le _) (Nat.le_refl _)
  · intro i hi
    exact absurd hi (Nat.not_lt_zero i)
  · intro i hge hlt
    exact absurd hlt (Nat.not_lt.2 hge)

/-- The first line starts at 0, so nothing is ever to be inserted before it. -/
theorem pos_of_search_missing (hsize : text.utf8ByteSize < 2 ^ 32) {position : UInt32} {line : Nat}
    (h : (ofText text).search position = .missing line) : 0 < line := by
  have hanswers := answers_search hsize position
  rw [h] at hanswers
  cases hanswers with
  | missing _ hcut =>
      exact (hcut.start_le_iff 0 (Nat.succ_pos _)).1 (UInt32.zero_le)

theorem lineOf_eq (hsize : text.utf8ByteSize < 2 ^ 32) (position : UInt32) :
    (ofText text).lineOf position = (newlinesBelow (bytes text) position.toNat).length := by
  have hcut := isCut_lineStarts hsize position
  rw [lineStarts, List.length_cons, List.length_map] at hcut
  have hanswers := answers_search hsize position
  unfold lineOf
  cases hsearch : (ofText text).search position with
  | found line =>
      rw [hsearch] at hanswers
      cases hanswers with
      | found _ hfound => exact Nat.succ.inj (hfound.unique hcut)
  | missing line =>
      rw [hsearch] at hanswers
      cases hanswers with
      | missing _ hmissing =>
          rw [hmissing.unique hcut]
          rfl

theorem toNat_start_lineOf (hsize : text.utf8ByteSize < 2 ^ 32) (position : UInt32) :
    ((ofText text).starts.getD ((ofText text).lineOf position) 0).toNat =
      lineStart (bytes text) position.toNat := by
  obtain ⟨later, hall, -⟩ := Text.lineStarts_split (bytes text) position.toNat
  have hline : (ofText text).lineOf position =
      (lineStarts (bytes text) position.toNat).length - 1 := by
    rw [lineOf_eq hsize, lineStarts, List.length_cons, List.length_map]
    rfl
  have hlt : (lineStarts (bytes text) position.toNat).length - 1 <
      (lineStarts (bytes text) position.toNat).length :=
    Nat.sub_lt (List.length_pos_iff.2 (Text.lineStarts_ne_nil _ _)) Nat.one_pos
  rw [toNat_getD_ofText hsize, hall, hline, List.getD_append _ _ _ _ hlt, Text.lineStart_eq,
    List.getLastD_eq_getLast?, List.getLast?_eq_getElem?, List.getD_eq_getElem?_getD]

theorem start_lineOf_le (hsize : text.utf8ByteSize < 2 ^ 32) (position : UInt32) :
    (ofText text).starts.getD ((ofText text).lineOf position) 0 ≤ position := by
  rw [UInt32.le_iff_toNat_le, toNat_start_lineOf hsize]
  exact Text.lineStart_le _ _

/-- The line of a place is the number of newlines before the position. -/
theorem toNat_line_locate (hsize : text.utf8ByteSize < 2 ^ 32) (position : UInt32) :
    ((ofText text).locate position).line.toNat =
      (newlinesBelow (bytes text) position.toNat).length := by
  rw [locate, lineOf_eq hsize]
  apply UInt32.toNat_ofNat_of_lt'
  exact Nat.lt_of_le_of_lt (Text.length_newlinesBelow_le _ _) position.toNat_lt

/-- The column of a place is how far the position lies behind the start of its line. -/
theorem toNat_character_locate (hsize : text.utf8ByteSize < 2 ^ 32) (position : UInt32) :
    lineStart (bytes text) position.toNat + ((ofText text).locate position).character.toNat =
      position.toNat := by
  rw [locate, UInt32.toNat_sub_of_le _ _ (start_lineOf_le hsize position),
    toNat_start_lineOf hsize]
  exact Nat.add_sub_cancel' (Text.lineStart_le _ _)

/-- Positions keep their order as places. -/
theorem locate_before (hsize : text.utf8ByteSize < 2 ^ 32) {p q : UInt32} (h : p < q) :
    ((ofText text).locate p).Before ((ofText text).locate q) := by
  have hlt : p.toNat < q.toNat := UInt32.lt_iff_toNat_lt.1 h
  have hp := toNat_character_locate hsize p
  have hq := toNat_character_locate hsize q
  rcases Text.newlinesBelow_of_lt (bytes text) hlt with hlength | hsame
  · left
    rw [UInt32.lt_iff_toNat_lt, toNat_line_locate hsize, toNat_line_locate hsize]
    exact hlength
  · right
    constructor
    · rw [← UInt32.toNat_inj, toNat_line_locate hsize, toNat_line_locate hsize, hsame]
    · rw [lineStart, hsame, ← lineStart] at hp
      rw [UInt32.lt_iff_toNat_lt]
      omega

end Text

/-- **Places count newlines.** In the map of a text of less than `2 ^ 32` bytes the search for a
position, which may lie past the end, finds the line that starts there or how many start before it,
and these are never none. So the index of the line is one of the map, and its start can be taken off
the position. The line is the number of newlines before the position, and the column is what lies
between the last of them and the position. Positions keep their order as places. -/
theorem locate_counts_newlines {text : String} (hsize : text.utf8ByteSize < 2 ^ 32) :
    (∀ position : UInt32,
      Answers (ofText text).starts position ((ofText text).search position) ∧
      (∀ line, (ofText text).search position = .missing line → 0 < line) ∧
      (ofText text).lineOf position < (ofText text).starts.size ∧
      (ofText text).starts.getD ((ofText text).lineOf position) 0 ≤ position ∧
      ((ofText text).locate position).line.toNat =
        (newlinesBelow (bytes text) position.toNat).length ∧
      lineStart (bytes text) position.toNat + ((ofText text).locate position).character.toNat =
        position.toNat) ∧
    ∀ p q, p < q → ((ofText text).locate p).Before ((ofText text).locate q) := by
  refine ⟨fun position => ?_, fun p q h => locate_before hsize h⟩
  have hline : (ofText text).lineOf position < (ofText text).starts.size := by
    have hcut := (isCut_lineStarts hsize position).le_size
    rw [lineStarts, List.length_cons, List.length_map] at hcut
    rw [lineOf_eq hsize]
    exact hcut
  exact ⟨answers_search hsize position, fun line => pos_of_search_missing hsize, hline,
    start_lineOf_le hsize position, toNat_line_locate hsize position,
    toNat_character_locate hsize position⟩

/-- The second newline of two ends an empty line, and a character of two bytes takes two columns. -/
theorem locate_counts_newlines_empty_line :
    ((ofText "é\n\nab").locate 3).line.toNat = 1 ∧
      ((ofText "é\n\nab").locate 3).character.toNat = 0 ∧
      ((ofText "é\n\nab").locate 2).Before ((ofText "é\n\nab").locate 9) := by
  obtain ⟨hat, hbefore⟩ := locate_counts_newlines (by decide : "é\n\nab".utf8ByteSize < 2 ^ 32)
  obtain ⟨-, -, -, -, hline, hcharacter⟩ := hat 3
  refine ⟨hline, ?_, hbefore 2 9 (by decide)⟩
  have hstart : lineStart (bytes "é\n\nab") 3 = 3 := by decide
  rw [show (3 : UInt32).toNat = 3 from rfl, hstart] at hcharacter
  omega

end LineMap

end LetterLang
