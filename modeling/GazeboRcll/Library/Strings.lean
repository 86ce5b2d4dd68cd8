import Mathlib.Algebra.Group.Nat.Defs
import Mathlib.Data.List.Infix
import Mathlib.Data.List.TakeWhile
import Mathlib.Data.Nat.Notation
import Mathlib.Tactic.Common

/-!
# Searching and splitting strings

`find`, `rfind` and the test for an ending as the C++ library has them, on the characters
of a string, with lengths and places of type `size_t` as numbers; and the items between
delimiters that a loop over `std::getline` collects, the empty ones left out.
-/

namespace Strings

/-- Where the first occurrence of `s` starts. -/
def findFrom (s : List Char) : List Char → Option ℕ
  | [] => if s = [] then some 0 else none
  | c :: cs => if s.isPrefixOf (c :: cs) then some 0 else (findFrom s cs).map (· + 1)

/-- `std::string::find`. -/
def find (value s : String) : Option ℕ := findFrom s.toList value.toList

/-- A text is found if it occurs. -/
theorem findFrom_isSome_iff (s value : List Char) :
    (findFrom s value).isSome ↔ s <:+: value := by
  induction value with
  | nil =>
    rw [findFrom, List.infix_nil]
    split <;> simp_all
  | cons c cs ih =>
    rw [findFrom, List.infix_cons_iff, ← ih, ← List.isPrefixOf_iff_prefix]
    split <;> simp_all

/-- `find` returns a position if the text occurs. -/
theorem find_isSome_iff (value s : String) :
    (find value s).isSome ↔ s.toList <:+: value.toList :=
  findFrom_isSome_iff s.toList value.toList

/-- Whatever occurs has a first occurrence. -/
theorem exists_first {s value : List Char} (hs : s ≠ []) (h : s <:+: value) :
    ∃ before rest, value = before ++ (s ++ rest) ∧ ¬ s <:+: before := by
  induction value with
  | nil => exact absurd (List.infix_nil.mp h) hs
  | cons c cs ih =>
    by_cases hhere : s <+: c :: cs
    · obtain ⟨rest, hrest⟩ := hhere
      exact ⟨[], rest, hrest.symm, fun hnil => hs (List.infix_nil.mp hnil)⟩
    · obtain ⟨before, rest, rfl, hbefore⟩ := ih ((List.infix_cons_iff.mp h).resolve_left hhere)
      refine ⟨c :: before, rest, rfl, fun hocc => ?_⟩
      rcases List.infix_cons_iff.mp hocc with hbegin | hocc
      · exact hhere (hbegin.trans ⟨s ++ rest, rfl⟩)
      · exact hbefore hocc

/-- A text whose first character it does not have again is found where it occurs first. -/
theorem findFrom_append {c : Char} {s before : List Char} (hc : c ∉ s)
    (hbefore : ¬ c :: s <:+: before) (rest : List Char) :
    findFrom (c :: s) (before ++ (c :: s ++ rest)) = some before.length := by
  induction before with
  | nil =>
    have hbegin : (c :: s).isPrefixOf (c :: s ++ rest) = true :=
      List.isPrefixOf_iff_prefix.mpr (List.prefix_append _ _)
    exact if_pos hbegin
  | cons b before ih =>
    have hnot : (c :: s).isPrefixOf (b :: before ++ (c :: s ++ rest)) = false := by
      rw [← Bool.not_eq_true, List.isPrefixOf_iff_prefix]
      intro hbegin
      rcases List.prefix_or_prefix_of_prefix hbegin (List.prefix_append _ _) with h | h
      · exact hbefore h.isInfix
      · -- the occurrence would reach the first character of the one after it
        obtain ⟨u, hu⟩ := h
        cases u with
        | nil =>
          rw [List.append_nil] at hu
          exact hbefore (hu ▸ List.infix_refl _)
        | cons d u =>
          have hrest : d :: u <+: c :: s ++ rest := by
            rw [← List.prefix_append_right_inj (b :: before), hu]
            exact hbegin
          have hmem : d ∈ s := by
            rw [← (List.cons.inj hu).2]
            exact List.mem_append_right _ List.mem_cons_self
          rw [List.cons_append, List.cons_prefix_cons] at hrest
          exact hc (hrest.1 ▸ hmem)
    rw [List.cons_append, findFrom]
    rw [List.cons_append] at hnot
    rw [hnot, ih fun hocc => hbefore (List.infix_cons hocc)]
    rfl

/-- What comes after the first occurrence does not move it. -/
theorem findFrom_append_left {s a : List Char} {pos : ℕ} (h : findFrom s a = some pos)
    (b : List Char) : findFrom s (a ++ b) = some pos := by
  induction a generalizing pos with
  | nil =>
    rw [findFrom] at h
    split_ifs at h with hs
    cases h
    subst hs
    cases b <;> rfl
  | cons c a ih =>
    rw [List.cons_append, findFrom]
    rw [findFrom] at h
    by_cases hhere : s.isPrefixOf (c :: a) = true
    · rw [if_pos hhere] at h
      have hpre : s <+: c :: (a ++ b) :=
        (List.isPrefixOf_iff_prefix.mp hhere).trans (List.prefix_append _ b)
      rw [if_pos (List.isPrefixOf_iff_prefix.mpr hpre)]
      exact h
    · rw [if_neg hhere, Option.map_eq_some_iff] at h
      obtain ⟨pos', hpos', rfl⟩ := h
      have hlen := ((findFrom_isSome_iff s a).mp (by rw [hpos']; rfl)).length_le
      have hnot : ¬ s.isPrefixOf (c :: (a ++ b)) = true := by
        rw [List.isPrefixOf_iff_prefix]
        intro hpre
        -- the occurrence would end in `a`, where another one still begins
        refine hhere (List.isPrefixOf_iff_prefix.mpr ?_)
        refine List.prefix_of_prefix_length_le hpre (List.prefix_append (c :: a) b) ?_
        rw [List.length_cons]
        omega
      rw [if_neg hnot, ih hpos']
      rfl

/-- Characters before which nothing begins move the first occurrence. -/
theorem findFrom_append_of_not {s a b : List Char}
    (h : ∀ x ∈ a.tails, x ≠ [] → ¬ s <+: x ++ b) :
    findFrom s (a ++ b) = (findFrom s b).map (a.length + ·) := by
  induction a with
  | nil => simp
  | cons c a ih =>
    have hhere : ¬ s.isPrefixOf (c :: (a ++ b)) = true := by
      rw [List.isPrefixOf_iff_prefix]
      exact h (c :: a) (by simp) (List.cons_ne_nil c a)
    have htails : ∀ x ∈ a.tails, x ≠ [] → ¬ s <+: x ++ b := by
      intro x hx
      apply h x
      rw [List.tails_cons]
      exact List.mem_cons_of_mem _ hx
    rw [List.cons_append, findFrom, if_neg hhere, ih htails, Option.map_map]
    congr 1
    funext pos
    show a.length + pos + 1 = (a.length + 1) + pos
    omega

/-- The last place from `pos` downwards where `s` occurs. -/
def rfindFrom (value s : List Char) : ℕ → Option ℕ
  | 0 => if s.isPrefixOf value then some 0 else none
  | pos + 1 =>
    if s.isPrefixOf (value.drop (pos + 1)) then some (pos + 1) else rfindFrom value s pos

/-- `std::string::rfind`. -/
def rfind (value s : String) (pos : ℕ) : Option ℕ :=
  if value.length < s.length then none
  else rfindFrom value.toList s.toList (min pos (value.length - s.length))

/-- The difference of two values of type `size_t`. -/
def sizeSub (a b : ℕ) : ℕ := (a.toUInt64 - b.toUInt64).toNat

/-- A difference that is not negative. -/
theorem sizeSub_of_le {a b : ℕ} (ha : a < 2 ^ 64) (h : b ≤ a) : sizeSub a b = a - b := by
  have hle : b.toUInt64 ≤ a.toUInt64 := by
    rw [UInt64.le_iff_toNat_le, UInt64.toNat_ofNat', UInt64.toNat_ofNat']
    omega
  rw [sizeSub, UInt64.toNat_sub_of_le _ _ hle, UInt64.toNat_ofNat', UInt64.toNat_ofNat']
  omega

/-- A negative difference wraps around. -/
theorem sizeSub_of_lt {a b : ℕ} (hb : b < 2 ^ 64) (h : a < b) :
    sizeSub a b = 2 ^ 64 - (b - a) := by
  rw [sizeSub, UInt64.toNat_sub, UInt64.toNat_ofNat', UInt64.toNat_ofNat']
  omega

def endsWith (value ending : String) : Bool := ending.toList.isSuffixOf value.toList

theorem endsWith_iff (value ending : String) :
    endsWith value ending = true ↔ ending.toList <:+ value.toList := List.isSuffixOf_iff_suffix

/-- A text is found if it begins at or before the position. -/
theorem rfindFrom_isSome_iff (value s : List Char) (pos : ℕ) :
    (rfindFrom value s pos).isSome ↔ ∃ i ≤ pos, s <+: value.drop i := by
  induction pos with
  | zero =>
    rw [rfindFrom]
    split <;> simp_all [← List.isPrefixOf_iff_prefix]
  | succ pos ih =>
    rw [rfindFrom]
    by_cases hhere : s.isPrefixOf (value.drop (pos + 1)) = true
    · rw [if_pos hhere]
      exact iff_of_true rfl ⟨pos + 1, le_refl _, List.isPrefixOf_iff_prefix.mp hhere⟩
    · rw [if_neg hhere, ih]
      constructor
      · intro ⟨i, hi, hocc⟩
        exact ⟨i, by omega, hocc⟩
      · intro ⟨i, hi, hocc⟩
        have hne : i ≠ pos + 1 := by
          rintro rfl
          exact hhere (List.isPrefixOf_iff_prefix.mpr hocc)
        exact ⟨i, by omega, hocc⟩

/-- From the last place at which the text fits, or from beyond it, the search finds every
occurrence. -/
theorem rfind_isSome_iff {value s : String} {pos : ℕ}
    (h : value.length - s.length ≤ pos) :
    (rfind value s pos).isSome ↔ s.toList <:+: value.toList := by
  rw [rfind, Nat.min_eq_right h]
  by_cases hshort : value.length < s.length
  · rw [if_pos hshort]
    refine iff_of_false Bool.false_ne_true fun hocc => ?_
    have hle := hocc.length_le
    rw [String.length_toList, String.length_toList] at hle
    omega
  · rw [if_neg hshort, rfindFrom_isSome_iff, List.infix_iff_prefix_suffix]
    constructor
    · intro ⟨i, _, hocc⟩
      exact ⟨_, hocc, List.drop_suffix i _⟩
    · intro ⟨rest, hocc, hrest⟩
      have hle := hocc.length_le
      have hle' := hrest.length_le
      rw [String.length_toList] at hle hle'
      refine ⟨value.length - rest.length, by omega, ?_⟩
      rwa [← String.length_toList, ← List.suffix_iff_eq_drop.mp hrest]

/-- `erase` of `len` characters from `pos` on and `insert` at their place. -/
def replace (value : String) (pos len : ℕ) (s : String) : String :=
  .ofList (value.toList.take pos ++ s.toList ++ value.toList.drop (pos + len))

/-! ## C strings -/

def nul : Char := Char.ofNat 0

/-- The characters of a C string. -/
def cString (s : String) : String := .ofList (s.toList.takeWhile fun c => c.toNat ≠ 0)

theorem toNat_ne_zero_iff (c : Char) : c.toNat ≠ 0 ↔ c ≠ nul := by
  refine not_congr ⟨fun h => ?_, fun h => ?_⟩
  · rw [← Char.ofNat_toNat c, h]
    rfl
  · rw [h]
    rfl

/-- A text without a null character is its C string. -/
theorem cString_eq {s : String} (h : nul ∉ s.toList) : cString s = s := by
  have hall : ∀ c ∈ s.toList, decide (c.toNat ≠ 0) = true := by
    intro c hc
    rw [decide_eq_true_iff, toNat_ne_zero_iff]
    exact fun heq => h (heq ▸ hc)
  rw [cString, List.takeWhile_eq_self_iff.mpr hall, String.ofList_toList]

/-- A C string has no null character. -/
theorem not_nul_mem_cString (s : String) : nul ∉ (cString s).toList := by
  rw [cString, String.toList_ofList]
  intro hmem
  have hne := List.mem_takeWhile_imp hmem
  rw [decide_eq_true_iff] at hne
  exact hne rfl

/-! ## Items between delimiters -/

def nonempty (item : List Char) : List (List Char) := if item = [] then [] else [item]

/-- The items from here on, the first one already begun. -/
def splitFrom (delim : Char) : List Char → List Char → List (List Char)
  | item, [] => nonempty item
  | item, c :: cs =>
    if c = delim then nonempty item ++ splitFrom delim [] cs
    else splitFrom delim (item ++ [c]) cs

def split (delim : Char) (s : String) : List String :=
  (splitFrom delim [] s.toList).map String.ofList

/-- Every item behind a delimiter. -/
def join (delim : Char) (items : List String) : String :=
  .ofList (items.flatMap fun item => delim :: item.toList)

/-- What an item is: not empty, without a delimiter. -/
def IsItem (delim : Char) (item : String) : Prop := item ≠ "" ∧ delim ∉ item.toList

theorem mem_nonempty {item i : List Char} : i ∈ nonempty item ↔ i = item ∧ item ≠ [] := by
  rw [nonempty]
  split_ifs with h
  · simp [h]
  · simp [h]

/-- The parts are not empty, and the delimiter is in none of them. -/
theorem mem_splitFrom {delim : Char} {item cs i : List Char} (hitem : delim ∉ item)
    (h : i ∈ splitFrom delim item cs) : i ≠ [] ∧ delim ∉ i := by
  induction cs generalizing item with
  | nil =>
    obtain ⟨rfl, hne⟩ := mem_nonempty.mp h
    exact ⟨hne, hitem⟩
  | cons c cs ih =>
    rw [splitFrom] at h
    split_ifs at h with hc
    · rcases List.mem_append.mp h with h | h
      · obtain ⟨rfl, hne⟩ := mem_nonempty.mp h
        exact ⟨hne, hitem⟩
      · exact ih List.not_mem_nil h
    · refine ih (fun hmem => ?_) h
      rcases List.mem_append.mp hmem with hmem | hmem
      · exact hitem hmem
      · exact hc (List.mem_singleton.mp hmem).symm

/-- The parts of a text can be joined again. -/
theorem isItem_of_mem_split {delim : Char} {s item : String} (h : item ∈ split delim s) :
    IsItem delim item := by
  obtain ⟨cs, hcs, rfl⟩ := List.mem_map.mp h
  obtain ⟨hne, hdelim⟩ := mem_splitFrom List.not_mem_nil hcs
  refine ⟨fun hempty => hne ?_, ?_⟩
  · have hlist : (String.ofList cs).toList = [] := by
      rw [hempty]
      rfl
    rwa [String.toList_ofList] at hlist
  · rwa [String.toList_ofList]

/-- Characters other than the delimiter belong to the item begun. -/
theorem splitFrom_append {delim : Char} {cs : List Char} (h : delim ∉ cs)
    (item rest : List Char) :
    splitFrom delim item (cs ++ rest) = splitFrom delim (item ++ cs) rest := by
  induction cs generalizing item with
  | nil => rw [List.nil_append, List.append_nil]
  | cons c cs ih =>
    have hc : c ≠ delim := fun heq => h (heq ▸ List.mem_cons_self)
    rw [List.cons_append, splitFrom, if_neg hc,
      ih (fun hmem => h (List.mem_cons_of_mem c hmem)), List.append_assoc]
    rfl

/-- Items that were joined are the parts of the result. -/
theorem split_join {delim : Char} {items : List String} (h : ∀ item ∈ items, IsItem delim item) :
    split delim (join delim items) = items := by
  have hfrom : ∀ item : List Char, splitFrom delim item (join delim items).toList =
      nonempty item ++ items.map String.toList := by
    rw [join, String.toList_ofList]
    induction items with
    | nil => exact fun item => (List.append_nil _).symm
    | cons i items ih =>
      intro item
      have hi : IsItem delim i := h i List.mem_cons_self
      have hne : i.toList ≠ [] := fun hnil => hi.1 (String.toList_inj.mp hnil)
      rw [List.flatMap_cons, List.cons_append, splitFrom, if_pos rfl, splitFrom_append hi.2,
        List.nil_append, ih fun j hj => h j (List.mem_cons_of_mem i hj)]
      rw [show nonempty i.toList = [i.toList] from if_neg hne]
      rfl
  rw [split, hfrom, show nonempty [] = [] from if_pos rfl, List.nil_append, List.map_map]
  exact List.map_id'' (fun _ => String.ofList_toList) items

/-- Each item comes after a delimiter. -/
theorem toList_join (delim : Char) (items : List String) :
    (join delim items).toList = items.flatMap fun item => delim :: item.toList :=
  String.toList_ofList

theorem join_singleton (delim : Char) (item : String) :
    join delim [item] = .singleton delim ++ item := by
  rw [← String.toList_inj, toList_join, List.flatMap_singleton, String.toList_append,
    String.toList_singleton, List.singleton_append]

theorem join_append (delim : Char) (a b : List String) :
    join delim (a ++ b) = join delim a ++ join delim b := by
  rw [← String.toList_inj, String.toList_append, toList_join, toList_join, toList_join,
    List.flatMap_append]

/-- Items without the delimiter can be told from what they are joined to, also empty ones. -/
theorem join_inj {delim : Char} {a b : List String} (ha : ∀ item ∈ a, delim ∉ item.toList)
    (hb : ∀ item ∈ b, delim ∉ item.toList) (h : join delim a = join delim b) : a = b := by
  rw [← String.toList_inj, toList_join, toList_join] at h
  induction a generalizing b with
  | nil =>
    cases b with
    | nil => rfl
    | cons i b => cases h
  | cons i a ih =>
    cases b with
    | nil => cases h
    | cons j b =>
      rw [List.flatMap_cons, List.flatMap_cons, List.cons_append, List.cons_append] at h
      have htail := (List.cons.inj h).2
      -- an item ends before the next delimiter
      have htake : ∀ {i : String} {l : List String}, delim ∉ i.toList →
          (i.toList ++ l.flatMap fun item => delim :: item.toList).takeWhile (· ≠ delim) =
            i.toList := by
        intro i l hi
        have hall : ∀ c ∈ i.toList, decide (c ≠ delim) = true := by
          intro c hc
          apply decide_eq_true
          rintro rfl
          exact hi hc
        rw [List.takeWhile_append_of_pos hall]
        cases l with
        | nil => simp
        | cons j l => simp
      have hij : i.toList = j.toList := by
        rw [← htake (ha i List.mem_cons_self), htail, htake (hb j List.mem_cons_self)]
      rw [hij, List.append_right_inj] at htail
      rw [String.toList_inj.mp hij, ih (fun k hk => ha k (List.mem_cons_of_mem i hk))
        (fun k hk => hb k (List.mem_cons_of_mem j hk)) htail]

/-- At a delimiter the item begun is complete. -/
theorem splitFrom_append_delim (delim : Char) (item cs rest : List Char) :
    splitFrom delim item (cs ++ delim :: rest) =
      splitFrom delim item cs ++ splitFrom delim [] rest := by
  induction cs generalizing item with
  | nil => simp [splitFrom]
  | cons c cs ih =>
    rw [List.cons_append, splitFrom, splitFrom]
    split_ifs
    · rw [ih, List.append_assoc]
    · exact ih _

/-- Joined texts are split one by one, whatever is in them. -/
theorem split_join_flatMap (delim : Char) (items : List String) :
    split delim (join delim items) = items.flatMap (split delim) := by
  have hfrom : ∀ cs : List Char,
      splitFrom delim [] (cs ++ items.flatMap fun item => delim :: item.toList) =
        splitFrom delim [] cs ++ items.flatMap fun item => splitFrom delim [] item.toList := by
    induction items with
    | nil =>
      intro cs
      rw [List.flatMap_nil, List.flatMap_nil, List.append_nil, List.append_nil]
    | cons item items ih =>
      intro cs
      rw [List.flatMap_cons, List.flatMap_cons, List.cons_append, splitFrom_append_delim, ih]
  have hnil := hfrom []
  have hnone : splitFrom delim [] [] = [] := by
    rw [splitFrom, nonempty, if_pos rfl]
  rw [List.nil_append, ← toList_join, hnone, List.nil_append] at hnil
  rw [split, hnil, List.map_flatMap]
  rfl

/-- A text without the delimiter is one item, or none if it is empty. -/
theorem split_of_not_mem {delim : Char} {s : String} (h : delim ∉ s.toList) :
    split delim s = if s = "" then [] else [s] := by
  have hfrom := splitFrom_append h [] []
  rw [List.append_nil, List.nil_append] at hfrom
  rw [split, hfrom, splitFrom, nonempty]
  by_cases hs : s = ""
  · rw [if_pos hs, if_pos (String.toList_eq_nil_iff.mpr hs)]
    rfl
  · rw [if_neg hs, if_neg (mt String.toList_eq_nil_iff.mp hs), List.map_singleton,
      String.ofList_toList]

/-- The items have all the characters other than the delimiter, in their order. -/
theorem flatMap_split (delim : Char) (s : String) :
    (split delim s).flatMap String.toList = s.toList.filter (· ≠ delim) := by
  have hnonempty : ∀ item : List Char, (nonempty item).flatten = item := by
    intro item
    rw [nonempty]
    split_ifs with hitem
    · rw [hitem]
      rfl
    · exact List.flatten_singleton
  have hfrom : ∀ item cs : List Char,
      (splitFrom delim item cs).flatten = item ++ cs.filter (· ≠ delim) := by
    intro item cs
    induction cs generalizing item with
    | nil => rw [splitFrom, hnonempty, List.filter_nil, List.append_nil]
    | cons c cs ih =>
      rw [splitFrom]
      split_ifs with hc
      · rw [List.flatten_append, hnonempty, ih, List.filter_cons_of_neg (by simp [hc])]
        rfl
      · rw [ih, List.filter_cons_of_pos (by simp [hc]), List.append_assoc]
        rfl
  rw [split, List.flatMap_map, ← List.nil_append (List.filter _ _), ← hfrom]
  simp

/-- Cutting a text at its first null character changes its items. -/
theorem split_cString_eq_iff {delim : Char} (hdelim : delim ≠ nul) (s : String) :
    split delim (cString s) = split delim s ↔ nul ∉ s.toList := by
  refine ⟨fun h hmem => ?_, fun h => by rw [cString_eq h]⟩
  have hchars := congrArg (List.flatMap String.toList) h
  rw [flatMap_split, flatMap_split] at hchars
  have hnul : nul ∈ s.toList.filter (· ≠ delim) :=
    List.mem_filter.mpr ⟨hmem, decide_eq_true hdelim.symm⟩
  rw [← hchars] at hnul
  exact not_nul_mem_cString s (List.mem_filter.mp hnul).1

end Strings
