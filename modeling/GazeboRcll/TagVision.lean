import GazeboRcll.Library.Stoi
import GazeboRcll.Library.Strings

/-!
# The ids of tags

`TagVision` tracks every model whose name contains `tag_` in any case, and reads the id of a tag
in view from what comes after the first `tag_` in lower case, up to a slash. `std::stoi` throws
an exception when there is no number, which ends the simulation (`tag_id_iff`).
-/

namespace GazeboRcll

open NumGet

/-- `fnmatch("*tag_*", name, FNM_CASEFOLD) == 0`. -/
def isTagName (name : String) : Bool :=
  (Strings.findFrom "tag_".toList
    ((name.toList.takeWhile fun c => c ≠ '\x00').map Char.toLower)).isSome

/-- `TagVision::get_tag_id_from_name`. -/
def getTagIdFromName (name : String) : Except StoiError ℤ :=
  match Strings.find name "tag_" with
  | none => .ok 0
  | some pos =>
    let tagId := String.ofList (name.toList.drop (pos + 4))
    match Strings.find tagId "/" with
    | none => stoi tagId.toList
    | some slash => stoi (tagId.toList.take slash)

/-- What the name has between the first `tag_` and the next slash. -/
def TagText (name : String) (text : List Char) : Prop :=
  ∃ before after, name.toList = before ++ ("tag_".toList ++ (text ++ after)) ∧
    ¬ "tag_".toList <:+: before ∧ '/' ∉ text ∧ ∀ c ∈ after.head?, c = '/'

/-- A name that contains `tag_` has such a text. -/
theorem exists_tagText {name : String} (h : "tag_".toList <:+: name.toList) :
    ∃ text, TagText name text := by
  obtain ⟨before, rest, hname, hbefore⟩ := Strings.exists_first (by decide) h
  refine ⟨rest.takeWhile (· ≠ '/'), before, rest.dropWhile (· ≠ '/'), ?_, hbefore, ?_, ?_⟩
  · rw [List.takeWhile_append_dropWhile, hname]
  · intro hmem
    simpa using List.mem_takeWhile_imp hmem
  · intro c hc
    have hnot := List.head?_dropWhile_not (· ≠ '/') rest
    rw [hc] at hnot
    simpa using hnot

/-- The text up to the slash is what is cut out. -/
theorem cut_at_slash {text after : List Char} (htext : '/' ∉ text)
    (hafter : ∀ c ∈ after.head?, c = '/') :
    (match Strings.findFrom "/".toList (text ++ after) with
      | none => stoi (text ++ after)
      | some slash => stoi ((text ++ after).take slash)) = stoi text := by
  have hinfix : ¬ ['/'] <:+: text := fun h => htext (h.subset List.mem_cons_self)
  cases after with
  | nil =>
    have hnone : Strings.findFrom "/".toList text = none := by
      rw [← Option.not_isSome_iff_eq_none, Strings.findFrom_isSome_iff]
      exact hinfix
    rw [List.append_nil, hnone]
  | cons c after =>
    obtain rfl := hafter c rfl
    have hsome : Strings.findFrom "/".toList (text ++ '/' :: after) = some text.length :=
      Strings.findFrom_append List.not_mem_nil hinfix after
    rw [hsome]
    dsimp only
    rw [List.take_left]

theorem getTagIdFromName_eq {name : String} {text : List Char} (h : TagText name text) :
    getTagIdFromName name = stoi text := by
  obtain ⟨before, after, hname, hbefore, htext, hafter⟩ := h
  have hfind : Strings.find name "tag_" = some before.length := by
    rw [Strings.find, hname]
    exact Strings.findFrom_append (by decide) hbefore (text ++ after)
  have hdrop : name.toList.drop (before.length + 4) = text ++ after := by
    rw [hname, ← List.drop_drop, List.drop_left]
    rfl
  rw [getTagIdFromName, hfind]
  dsimp only
  have hlist : (String.ofList (text ++ after)).toList = text ++ after := String.toList_ofList
  rw [hdrop, Strings.find, hlist]
  exact cut_at_slash htext hafter

theorem getTagIdFromName_isOk_iff (name : String) :
    (∃ id, getTagIdFromName name = .ok id) ↔ ∀ text, TagText name text → ReadsInt text := by
  constructor
  · intro hid text htext
    rw [getTagIdFromName_eq htext] at hid
    exact (stoi_isOk_iff text).mp hid
  · intro hreads
    by_cases hinfix : "tag_".toList <:+: name.toList
    · obtain ⟨text, htext⟩ := exists_tagText hinfix
      rw [getTagIdFromName_eq htext]
      exact (stoi_isOk_iff text).mpr (hreads text htext)
    · have hnone : Strings.find name "tag_" = none := by
        rw [← Option.not_isSome_iff_eq_none, Strings.find_isSome_iff]
        exact hinfix
      exact ⟨0, by rw [getTagIdFromName, hnone]⟩

/-- A name that is taken for a tag has an id exactly if it has a number of type `int` between
the first `tag_` in lower case and the next slash, or no such `tag_`; a number of decimal digits
is the id. -/
theorem tag_id_iff (name : String) :
    (isTagName name = true →
      ((∃ id, getTagIdFromName name = .ok id) ↔ ∀ text, TagText name text → ReadsInt text)) ∧
      ∀ before digits after, name.toList = before ++ ("tag_".toList ++ (digits ++ after)) →
        ¬ "tag_".toList <:+: before → digits ≠ [] → (∀ c ∈ digits, c.isDigit = true) →
        (∀ c ∈ after.head?, c = '/') → Nat.ofDigitChars 10 digits 0 < 2 ^ 31 →
        getTagIdFromName name = .ok (Nat.ofDigitChars 10 digits 0 : ℤ) := by
  constructor
  · intro _
    exact getTagIdFromName_isOk_iff name
  · intro before digits after hname hbefore hne hdigits hafter hlt
    have hslash : '/' ∉ digits := fun hmem => absurd (hdigits '/' hmem) (by decide)
    have htext : TagText name digits := ⟨before, after, hname, hbefore, hslash, hafter⟩
    have hstoi : stoi ([] ++ ([] ++ (digits ++ []))) = _ :=
      stoi_append nofun List.mem_cons_self hne hdigits nofun
    rw [List.nil_append, List.nil_append, List.append_nil] at hstoi
    have hrange : InInt (signedValue [] digits) := by
      show -2 ^ 31 ≤ (Nat.ofDigitChars 10 digits 0 : ℤ) ∧ (Nat.ofDigitChars 10 digits 0 : ℤ) < _
      omega
    rw [getTagIdFromName_eq htext, hstoi, if_pos hrange]
    rfl

/-- The id of a name as the error message of the source wants it. -/
theorem tag_id_iff_format : getTagIdFromName "prefix/tag_01/suffix" = .ok 1 := by
  exact (tag_id_iff "prefix/tag_01/suffix").2 "prefix/".toList "01".toList "/suffix".toList
    (by decide) (by decide) (by decide) (by simp) (by simp) (by decide)

/-- The model of the camera itself is taken for a tag. -/
theorem tag_vision_throws :
    ¬ ∀ name, isTagName name = true → ∃ id, getTagIdFromName name = .ok id := by
  intro h
  obtain ⟨id, hid⟩ := h "tag_vision" (by decide +kernel)
  have hthrows : getTagIdFromName "tag_vision" = .error .invalidArgument := by decide +kernel
  rw [hthrows] at hid
  cases hid

end GazeboRcll
