import GazeboRcll.Mps.Recolor
import GazeboRcll.Puck

/-!
# Spawning a workpiece from a template

All of `spawn_puck`, with the file that it reads. It returns the empty string where the file is
not there, has no name to replace, or no base has the colour. Where the element of the plugin is
not found, `erase` throws. The description is published up to its first zero character, and the
last digit of the new name can be the beginning of an occurrence of the old colour.

`spawnsCleanly_iff`: for which files, colours and random numbers none of this goes wrong.
-/

namespace GazeboRcll

namespace Mps

open Strings (nul cString)

variable {Pose : Type}

/-- `Mps::spawn_puck`: what it returns and what has been published then, for the content of the
file if it can be opened, the random number, and what was published before. The name and the
colour have to be there both, whichever is looked at first. The setters of the message take a
`c_str()`. -/
def spawnPuckFrom (file : Option String) (spawnPose : Pose) (baseColor : Color) (roll : ℕ)
    (factoryPub : List (Factory Pose)) : Except SdfError (String × List (Factory Pose)) :=
  let newName := puckName roll
  match file with
  | none => .ok ("", factoryPub)
  | some rawSdf =>
    match baseColorText baseColor with
    | none => .ok ("", factoryPub)
    | some (newColor, colorString) =>
      match spawnSdf rawSdf newName newColor colorString with
      | .error .noName => .ok ("", factoryPub)
      -- `string_pos` is `npos`, which no test asks for
      | .error .outOfRange => .error .outOfRange
      | .ok newSdf => .ok (newName, factoryPub ++ [⟨cString newSdf, cString newName, spawnPose⟩])

/-! ## What is asked for -/

/-- A template before and after its first "workpiece_base". -/
def AroundName (rawSdf : String) (before after : List Char) : Prop :=
  rawSdf.toList = before ++ (oldName.toList ++ after) ∧ ¬ oldName.toList <:+: before

/-- One element of the plugin has got the colour of the base. -/
def Extended (colorString : String) (text sdf : List Char) : Prop :=
  ∃ before after, text = before ++ (pluginString.toList ++ after) ∧
    sdf = before ++ ((newPluginString colorString).toList ++ after)

/-- The template with its first name replaced, the old colour replaced on both sides of it, and
the plugin told a colour from which it loads the one of the base. -/
def Describes (rawSdf newName : String) (baseColor : Color) (sdf : String) : Prop :=
  ∃ newColor colorString, baseColorText baseColor = some (newColor, colorString) ∧
    (∀ garbage, (Puck.load newName (some colorString) garbage).baseColor = baseColor) ∧
    ∃ before after before' after', AroundName rawSdf before after ∧
      Strings.Replaced oldColor.toList newColor.toList before before' ∧
      Strings.Replaced oldColor.toList newColor.toList after after' ∧
      Extended colorString (before' ++ (newName.toList ++ after')) sdf.toList

/-- Nothing is published and the empty string is returned, or the name of the one workpiece that
is asked for. -/
def SpawnsCleanly (file : Option String) (spawnPose : Pose) (baseColor : Color) (roll : ℕ)
    (factoryPub : List (Factory Pose)) : Prop :=
  match spawnPuckFrom file spawnPose baseColor roll factoryPub with
  | .error _ => False
  | .ok (name, published) =>
    (name = "" ∧ published = factoryPub) ∨
      (name = puckName roll ∧ ∃ rawSdf sdf, file = some rawSdf ∧
        published = factoryPub ++ [⟨sdf, name, spawnPose⟩] ∧
        Describes rawSdf name baseColor sdf)

/-- The last digit of the new name and what comes after it are an occurrence of the old colour. -/
def NameBeginsColor (roll : ℕ) (rawSdf : String) : Prop :=
  roll % 10 = 1 ∧ ∃ before after, AroundName rawSdf before after ∧ oldColor.toList.tail <+: after

/-! ## The texts that are put in -/

/-- What the texts for a colour have in common. -/
structure FitText (baseColor : Color) (newColor colorString : String) : Prop where
  replaces : Strings.Replaces oldColor.toList newColor.toList
  apart : Strings.Apart pluginString.toList newColor.toList
  last : newColor.toList = newColor.toList.dropLast ++ ['1']
  begins : ∀ x ∈ newColor.toList.dropLast.tails, x ≠ [] → ¬ x <+: oldColor.toList
  noNul : nul ∉ newColor.toList ∧ nul ∉ (newPluginString colorString).toList
  loads : Puck.baseColorOf (some colorString) = baseColor

/-- The texts of each base colour fit the puck's description. -/
theorem fitText_of_baseColorText {baseColor : Color} {newColor colorString : String}
    (h : baseColorText baseColor = some (newColor, colorString)) :
    FitText baseColor newColor colorString := by
  have hreplaces := replaces_of_baseColorText h
  unfold baseColorText at h
  split at h
  · cases h
    exact ⟨hreplaces, by decide +kernel, by decide +kernel, by decide +kernel, by decide +kernel,
      by decide +kernel⟩
  · cases h
    exact ⟨hreplaces, by decide +kernel, by decide +kernel, by decide +kernel, by decide +kernel,
      by decide +kernel⟩
  · cases h
    exact ⟨hreplaces, by decide +kernel, by decide +kernel, by decide +kernel, by decide +kernel,
      by decide +kernel⟩
  · cases h

/-! ## The new name -/

/-- The letters of the new name, and the digits before its last one. -/
theorem exists_puckName (roll : ℕ) :
    ∃ m, (puckName roll).toList = 'p' :: (m ++ [Nat.digitChar (roll % 10)]) ∧
      ∀ c ∈ m, c.isDigit = true ∨ c ∈ ['u', 'c', 'k', '_'] := by
  have hdigits : ∃ ds, Nat.toDigits 10 (roll % 1000000) = ds ++ [Nat.digitChar (roll % 10)] ∧
      ∀ c ∈ ds, c.isDigit = true := by
    have hmod : roll % 1000000 % 10 = roll % 10 := by omega
    rw [Nat.toDigits_eq_if (by decide), ← hmod]
    split_ifs with hlt
    · rw [Nat.mod_eq_of_lt hlt]
      exact ⟨[], rfl, nofun⟩
    · exact ⟨_, rfl, fun c hc => Nat.isDigit_of_mem_toDigits (by decide) (by decide) hc⟩
  obtain ⟨ds, hds, hdigit⟩ := hdigits
  refine ⟨['u', 'c', 'k', '_'] ++ ds, ?_, fun c hc => ?_⟩
  · have htext : (toString (roll % 1000000)).toList = ds ++ [Nat.digitChar (roll % 10)] := by
      rw [Nat.toString_eq_ofList_toDigits, String.toList_ofList, hds]
    rw [puckName, String.toList_append, htext]
    rfl
  · rcases List.mem_append.mp hc with hc | hc
    · exact .inr hc
    · exact .inl (hdigit c hc)

/-- The last digit of a roll is a digit. -/
theorem isDigit_digitChar (roll : ℕ) : (Nat.digitChar (roll % 10)).isDigit = true := by
  have hdigit : ∀ d < 10, (Nat.digitChar d).isDigit = true := by decide
  exact hdigit _ (Nat.mod_lt _ (by decide))

/-- The last digit is `1` for the rolls that end in one. -/
theorem digitChar_eq_one_iff (roll : ℕ) : Nat.digitChar (roll % 10) = '1' ↔ roll % 10 = 1 := by
  have hdigit : ∀ d < 10, Nat.digitChar d = '1' ↔ d = 1 := by decide
  exact hdigit _ (Nat.mod_lt _ (by decide))

/-- A puck's name has digits and the letters of `puck_` only. -/
theorem not_mem_puckName {c : Char} (hdigit : c.isDigit = false)
    (hletter : c ∉ ['p', 'u', 'c', 'k', '_']) (roll : ℕ) : c ∉ (puckName roll).toList := by
  obtain ⟨m, hm, hchars⟩ := exists_puckName roll
  have hlast := isDigit_digitChar roll
  rw [hm, List.mem_cons, List.mem_append, List.mem_singleton]
  rintro (rfl | hc | rfl)
  · exact hletter (by decide)
  · rcases hchars c hc with hd | hl
    · rw [hdigit] at hd
      cases hd
    · exact hletter (List.mem_cons_of_mem _ hl)
  · rw [hdigit] at hlast
    cases hlast

/-- No puck's name shares a letter with the start of the plugin's text. -/
theorem apart_puckName (roll : ℕ) :
    Strings.Apart pluginString.toList (puckName roll).toList where
  head c hc := by
    have heq : c = '<' := Option.mem_unique hc (by decide +kernel)
    rw [heq]
    exact not_mem_puckName (by decide) (by decide) roll
  last c hc := by
    have heq : c = '>' := Option.mem_unique hc (by decide +kernel)
    rw [heq]
    exact not_mem_puckName (by decide) (by decide) roll
  outside := by
    refine ⟨'_', ?_, by decide +kernel⟩
    rw [puckName, String.toList_append]
    exact List.mem_append_left _ (by decide)

/-- No occurrence of the old colour begins in a text without dots, unless its last character and
what comes after it are one. -/
theorem no_color_begins {m text : List Char} (hdot : '.' ∉ m)
    (h : m.getLast? = some '1' → ¬ oldColor.toList.tail <+: text) :
    ∀ x ∈ m.tails, x ≠ [] → ¬ oldColor.toList <+: x ++ text := by
  intro x hx hne hpre
  have hsuffix := (List.mem_tails _ _).mp hx
  have hcolor : oldColor.toList = '1' :: '.' :: oldColor.toList.tail.tail := by decide
  cases x with
  | nil => exact hne rfl
  | cons c x =>
    rw [hcolor, List.cons_append, List.cons_prefix_cons] at hpre
    obtain ⟨rfl, hpre⟩ := hpre
    -- after the '1' a dot has to follow, which the text itself does not have
    cases x with
    | nil =>
      refine h ?_ hpre
      obtain ⟨y, rfl⟩ := hsuffix
      exact List.getLast?_concat
    | cons d x =>
      rw [List.cons_append, List.cons_prefix_cons] at hpre
      rw [← hpre.1] at hsuffix
      exact hdot (hsuffix.subset (by simp))

/-! ## The recoloured text -/

section

variable {baseColor : Color} {newColor colorString rawSdf newName sdf : String} {roll : ℕ}
  {before after before' after' text : List Char}

/-- The loop works on both sides of the new name. -/
theorem FitText.replaced_renamed (fit : FitText baseColor newColor colorString)
    (hbefore : Strings.Replaced oldColor.toList newColor.toList before before')
    (hafter : Strings.Replaced oldColor.toList newColor.toList after after')
    (h : ¬ (roll % 10 = 1 ∧ oldColor.toList.tail <+: after)) :
    Strings.Replaced oldColor.toList newColor.toList
      (before ++ ((puckName roll).toList ++ after))
      (before' ++ ((puckName roll).toList ++ after')) := by
  have hdot := not_mem_puckName (c := '.') (by decide) (by decide) roll
  obtain ⟨m, hm, -⟩ := exists_puckName roll
  rw [hm] at hdot ⊢
  -- the 'p' of the name keeps what is before it apart from the rest
  have hname : ∀ x ∈ (m ++ [Nat.digitChar (roll % 10)]).tails, x ≠ [] →
      ¬ oldColor.toList <+: x ++ after := by
    refine no_color_begins (fun hmem => hdot (List.mem_cons_of_mem _ hmem)) fun hlast hpre => ?_
    rw [List.getLast?_concat, Option.some_inj, digitChar_eq_one_iff] at hlast
    exact h ⟨hlast, hpre⟩
  exact .append_cons fit.replaces (by decide) hbefore (hafter.append fit.replaces hname)

/-- The loop takes the last digit of the new name for the beginning of the old colour. -/
theorem FitText.replaced_name (fit : FitText baseColor newColor colorString)
    (hbefore : Strings.Replaced oldColor.toList newColor.toList before before')
    (hafter : Strings.Replaced oldColor.toList newColor.toList after after')
    (hroll : roll % 10 = 1) (hcolor : oldColor.toList.tail <+: after) :
    ∃ result, Strings.Replaced oldColor.toList newColor.toList
        (before ++ ((puckName roll).toList ++ after)) result ∧
      result.length + 1 = (before' ++ ((puckName roll).toList ++ after')).length := by
  have hdot := not_mem_puckName (c := '.') (by decide) (by decide) roll
  obtain ⟨m, hm, -⟩ := exists_puckName roll
  rw [(digitChar_eq_one_iff roll).mpr hroll] at hm
  rw [hm] at hdot ⊢
  obtain ⟨rest, rfl⟩ := hcolor
  obtain ⟨rest', hrest⟩ := fit.replaces.exists_replaced ('1' :: rest)
  have hsplit : oldColor.toList.tail = oldColor.toList.tail.dropLast ++ ['1'] := by decide
  have hold : oldColor.toList = '1' :: oldColor.toList.tail := by decide
  have hlength := fit.replaces.length
  -- after the name: what the old colour ends with, then the rest
  have hafter' : after' = oldColor.toList.tail.dropLast ++ rest' := by
    apply hafter.unique
    rw [hsplit, List.append_assoc, List.dropLast_concat]
    exact hrest.append fit.replaces
      (Strings.not_begins_of_not_prefix (by decide) (by decide +kernel) _)
  -- with the last digit: the new colour, then the rest
  have hnew : Strings.Replaced oldColor.toList newColor.toList (oldColor.toList ++ rest)
      (newColor.toList.dropLast ++ rest') := by
    have hjoin : newColor.toList ++ rest = newColor.toList.dropLast ++ '1' :: rest := by
      nth_rewrite 1 [fit.last]
      rw [List.append_assoc, List.singleton_append]
    refine .turn (Strings.replaceFirst_self _ rest (by decide)) ?_
    rw [hjoin]
    refine hrest.append fit.replaces (Strings.not_begins_of_not_prefix ?_ fit.begins _)
    rw [List.length_dropLast]
    omega
  have hname : ∀ x ∈ m.tails, x ≠ [] → ¬ oldColor.toList <+: x ++ (oldColor.toList ++ rest) := by
    refine no_color_begins (fun hmem => hdot (by simp [hmem])) fun _ hpre => ?_
    have htail : oldColor.toList.tail = '.' :: oldColor.toList.tail.tail := by decide
    rw [hold, List.tail_cons, htail, List.cons_append, List.cons_prefix_cons] at hpre
    exact absurd hpre.1 (by decide)
  refine ⟨before' ++ 'p' :: (m ++ (newColor.toList.dropLast ++ rest')), ?_, ?_⟩
  · have htext : 'p' :: (m ++ ['1']) ++ (oldColor.toList.tail ++ rest) =
        'p' :: (m ++ (oldColor.toList ++ rest)) := by
      rw [hold]
      simp
    rw [htext]
    exact .append_cons fit.replaces (by decide) hbefore (hnew.append fit.replaces hname)
  · rw [hafter']
    simp only [List.length_append, List.length_cons, List.length_dropLast, List.length_tail,
      List.length_nil]
    omega

/-! ## The description -/

/-- The name is found after the text before it. -/
theorem AroundName.find_eq (h : AroundName rawSdf before after) :
    Strings.find rawSdf oldName = some before.length := by
  have hold : oldName.toList = 'w' :: oldName.toList.tail := by decide
  obtain ⟨heq, hnot⟩ := h
  rw [Strings.find, heq]
  rw [hold] at hnot ⊢
  exact Strings.findFrom_append (by decide) hnot after

/-- A description that has the name has a first one. -/
theorem exists_aroundName (h : oldName.toList <:+: rawSdf.toList) :
    ∃ before after, AroundName rawSdf before after :=
  Strings.exists_first (by decide) h

/-- The first name is in one place. -/
theorem AroundName.unique {before₂ after₂ : List Char} (h : AroundName rawSdf before after)
    (h₂ : AroundName rawSdf before₂ after₂) : before₂ = before ∧ after₂ = after := by
  have hfind := h.find_eq
  rw [h₂.find_eq, Option.some_inj] at hfind
  obtain ⟨hbefore, hrest⟩ := List.append_inj (h₂.1.symm.trans h.1) hfind
  exact ⟨hbefore, List.append_cancel_left hrest⟩

/-- The description made of the file, by the place of the plugin's text. -/
theorem AroundName.spawnSdf_eq (h : AroundName rawSdf before after)
    (hr : Strings.Replaced oldColor.toList newColor.toList
      (before ++ (newName.toList ++ after)) text)
    (fit : FitText baseColor newColor colorString) :
    spawnSdf rawSdf newName newColor colorString =
      (Strings.findFrom pluginString.toList text).elim (.error .outOfRange) fun stringPos =>
        .ok (Strings.replace (.ofList text) stringPos pluginString.length
          (newPluginString colorString)) := by
  have hlength : oldName.length = oldName.toList.length := by decide
  have hrename : Strings.replace rawSdf before.length oldName.length newName =
      .ofList (before ++ (newName.toList ++ after)) := by
    rw [Strings.replace, h.1, hlength, List.take_left, ← List.drop_drop, List.drop_left,
      List.drop_left, List.append_assoc]
  obtain ⟨result, hresult, -⟩ := recolor_of_replaces fit.replaces
    (.ofList (before ++ (newName.toList ++ after)))
  have htext : result = .ofList text := by
    obtain ⟨chars, hchars, rfl⟩ := Option.map_eq_some_iff.mp hresult
    rw [String.toList_ofList] at hchars
    rw [(Strings.replaced_of_replaceAll hchars).unique hr]
  unfold spawnSdf
  rw [h.find_eq]
  dsimp only
  rw [hrename, hresult, Option.getD_some, htext, Strings.find, String.toList_ofList]
  cases Strings.findFrom pluginString.toList text <;> rfl

/-- Without the plugin's text `replace` throws. -/
theorem AroundName.spawnSdf_of_not_infix (h : AroundName rawSdf before after)
    (hr : Strings.Replaced oldColor.toList newColor.toList
      (before ++ (newName.toList ++ after)) text)
    (fit : FitText baseColor newColor colorString) (hnot : ¬ pluginString.toList <:+: text) :
    spawnSdf rawSdf newName newColor colorString = .error .outOfRange := by
  have hnone : Strings.findFrom pluginString.toList text = none := by
    rw [← Option.not_isSome_iff_eq_none, Strings.findFrom_isSome_iff]
    exact hnot
  rw [h.spawnSdf_eq hr fit, hnone, Option.elim_none]

/-- With it the description is extended there. -/
theorem AroundName.exists_spawnSdf (h : AroundName rawSdf before after)
    (hr : Strings.Replaced oldColor.toList newColor.toList
      (before ++ (newName.toList ++ after)) text)
    (fit : FitText baseColor newColor colorString) (hocc : pluginString.toList <:+: text) :
    ∃ sdf, spawnSdf rawSdf newName newColor colorString = .ok sdf ∧
      Extended colorString text sdf.toList := by
  have hlength : pluginString.length = pluginString.toList.length := by decide +kernel
  obtain ⟨pos, hpos⟩ :=
    Option.isSome_iff_exists.mp ((Strings.findFrom_isSome_iff _ _).mpr hocc)
  obtain ⟨l, r, rfl, rfl, -⟩ := Strings.exists_of_findFrom hpos
  rw [h.spawnSdf_eq hr fit, hpos]
  refine ⟨_, rfl, l, r, rfl, ?_⟩
  rw [Strings.replace, String.toList_ofList, String.toList_ofList, hlength, List.take_left,
    ← List.drop_drop, List.drop_left, List.drop_left, List.append_assoc]

/-- Extending adds what the plugin's new text is longer. -/
theorem Extended.length_eq {sdf : List Char} (h : Extended colorString text sdf) :
    sdf.length + pluginString.toList.length =
      text.length + (newPluginString colorString).toList.length := by
  obtain ⟨l, r, rfl, rfl⟩ := h
  simp only [List.length_append]
  omega

/-- Extending adds no NUL. -/
theorem Extended.nul_mem_iff {sdf : List Char} (h : Extended colorString text sdf)
    (fit : FitText baseColor newColor colorString) : nul ∈ sdf ↔ nul ∈ text := by
  have hplugin : nul ∉ pluginString.toList := by decide +kernel
  obtain ⟨l, r, rfl, rfl⟩ := h
  simp only [List.mem_append, hplugin, fit.noNul.2, false_or]

/-- The element of the plugin is found if the template has it. -/
theorem AroundName.infix_iff (h : AroundName rawSdf before after)
    (hr : Strings.Replaced oldColor.toList newColor.toList
      (before ++ ((puckName roll).toList ++ after)) text)
    (fit : FitText baseColor newColor colorString) :
    pluginString.toList <:+: text ↔ pluginString.toList <:+: rawSdf.toList := by
  have hcolor : Strings.Apart pluginString.toList oldColor.toList := by decide +kernel
  have hname : Strings.Apart pluginString.toList oldName.toList := by decide +kernel
  rw [hr.infix_iff hcolor fit.apart, (apart_puckName roll).infix_iff, h.1, hname.infix_iff]

/-- The name has no NUL, so the file has them before or after it. -/
theorem AroundName.nul_mem_iff (h : AroundName rawSdf before after) :
    nul ∈ rawSdf.toList ↔ nul ∈ before ∨ nul ∈ after := by
  have hname : nul ∉ oldName.toList := by decide
  rw [h.1]
  simp only [List.mem_append, hname, false_or]

/-- A puck's name has no NUL. -/
theorem not_nul_mem_puckName (roll : ℕ) : nul ∉ (puckName roll).toList :=
  not_mem_puckName (by decide) (by decide) roll

/-! ## All of `spawn_puck` -/

variable {spawnPose : Pose} {factoryPub : List (Factory Pose)}

/-- Nothing can go wrong with a colour that no base can have. -/
theorem spawnPuckFrom_of_no_color (htext : baseColorText baseColor = none)
    (file : Option String) :
    spawnPuckFrom file spawnPose baseColor roll factoryPub = .ok ("", factoryPub) := by
  unfold spawnPuckFrom
  rw [htext]
  cases file <;> rfl

/-- Without the name in the file nothing is spawned. -/
theorem spawnPuckFrom_of_no_name (hname : ¬ oldName.toList <:+: rawSdf.toList) :
    spawnPuckFrom (some rawSdf) spawnPose baseColor roll factoryPub = .ok ("", factoryPub) := by
  have hfind : Strings.find rawSdf oldName = none := by
    rw [← Option.not_isSome_iff_eq_none, Strings.find_isSome_iff]
    exact hname
  cases htext : baseColorText baseColor with
  | none => exact spawnPuckFrom_of_no_color htext _
  | some text =>
    unfold spawnPuckFrom spawnSdf
    dsimp only
    rw [htext]
    dsimp only
    rw [hfind]

/-- An exception of `replace` comes out. -/
theorem spawnPuckFrom_of_outOfRange
    (htext : baseColorText baseColor = some (newColor, colorString))
    (hsdf : spawnSdf rawSdf (puckName roll) newColor colorString = .error .outOfRange) :
    spawnPuckFrom (some rawSdf) spawnPose baseColor roll factoryPub = .error .outOfRange := by
  unfold spawnPuckFrom
  dsimp only
  rw [htext]
  dsimp only
  rw [hsdf]

/-- Spawning nothing is clean. -/
theorem spawnsCleanly_of_empty {file : Option String}
    (h : spawnPuckFrom file spawnPose baseColor roll factoryPub = .ok ("", factoryPub)) :
    SpawnsCleanly file spawnPose baseColor roll factoryPub := by
  rw [SpawnsCleanly, h]
  exact .inl ⟨rfl, rfl⟩

/-- Where there is a description, it has to be the right one. -/
theorem spawnsCleanly_of_spawnSdf (htext : baseColorText baseColor = some (newColor, colorString))
    (hsdf : spawnSdf rawSdf (puckName roll) newColor colorString = .ok sdf) :
    SpawnsCleanly (some rawSdf) spawnPose baseColor roll factoryPub ↔
      Describes rawSdf (puckName roll) baseColor (cString sdf) := by
  have hspawn : spawnPuckFrom (some rawSdf) spawnPose baseColor roll factoryPub =
      .ok (puckName roll, factoryPub ++ [⟨cString sdf, puckName roll, spawnPose⟩]) := by
    unfold spawnPuckFrom
    dsimp only
    rw [htext]
    dsimp only
    rw [hsdf]
    dsimp only
    rw [Strings.cString_eq (not_nul_mem_puckName roll)]
  rw [SpawnsCleanly, hspawn]
  constructor
  · rintro (⟨hempty, -⟩ | ⟨-, rawSdf', sdf', hraw, hpub, hdescribes⟩)
    · exact absurd hempty (puckName_ne_empty roll)
    · cases hraw
      have hfactory := List.append_cancel_left hpub
      cases hfactory
      exact hdescribes
  · intro hdescribes
    exact .inr ⟨rfl, rawSdf, cString sdf, rfl, rfl, hdescribes⟩

/-- Where nothing is thrown, this is what a station does whose descriptions come from the file. -/
theorem spawnPuckFrom_eq {M : Machine Pose} {file : Option String}
    (hM : M.sdf = fun newName newColor colorString =>
      file.bind fun rawSdf => (spawnSdf rawSdf newName newColor colorString).toOption.map cString)
    (h : spawnPuckFrom file spawnPose baseColor roll factoryPub ≠ .error .outOfRange) :
    spawnPuckFrom file spawnPose baseColor roll factoryPub =
      .ok ((requestedName M roll baseColor).getD "",
        factoryPub ++ (factoryRequest M spawnPose baseColor roll).toList) := by
  rw [requestedName, factoryRequest, hM]
  unfold spawnPuckFrom at h ⊢
  cases file with
  | none => cases baseColorText baseColor <;> simp
  | some rawSdf =>
    cases htext : baseColorText baseColor with
    | none => simp
    | some text =>
      obtain ⟨newColor, colorString⟩ := text
      dsimp only [Option.bind_some]
      rw [htext] at h
      dsimp only at h
      cases hsdf : spawnSdf rawSdf (puckName roll) newColor colorString with
      | error e =>
        rw [hsdf] at h
        cases e with
        | noName => simp [Except.toOption]
        | outOfRange => exact absurd rfl h
      | ok newSdf => simp [Except.toOption, Strings.cString_eq (not_nul_mem_puckName roll)]

/-- A description has the zero characters of the template. -/
theorem Describes.nul_mem (h : Describes rawSdf newName baseColor sdf)
    (hnul : nul ∈ rawSdf.toList) : nul ∈ sdf.toList := by
  obtain ⟨newColor, colorString, htext, -, before, after, before', after', haround, hbefore,
    hafter, hextended⟩ := h
  have fit := fitText_of_baseColorText htext
  have hcolor : nul ∉ oldColor.toList := by decide
  rw [hextended.nul_mem_iff fit, List.mem_append, List.mem_append,
    hbefore.mem_iff hcolor fit.noNul.1, hafter.mem_iff hcolor fit.noNul.1]
  rcases haround.nul_mem_iff.mp hnul with hmem | hmem
  · exact .inl hmem
  · exact .inr (.inr hmem)

/-- With the last digit of the name one more occurrence is replaced, and the description is one
character too short. -/
theorem AroundName.not_describes (h : AroundName rawSdf before after)
    (htext : baseColorText baseColor = some (newColor, colorString))
    (hr : Strings.Replaced oldColor.toList newColor.toList
      (before ++ ((puckName roll).toList ++ after)) text)
    (hextended : Extended colorString text sdf.toList) (hname : NameBeginsColor roll rawSdf) :
    ¬ Describes rawSdf (puckName roll) baseColor sdf := by
  rintro ⟨newColor', colorString', htext', -, before₂, after₂, before', after', haround,
    hbefore, hafter, hlong⟩
  rw [htext] at htext'
  cases htext'
  obtain ⟨hroll, before₃, after₃, haround', hbegins⟩ := hname
  obtain ⟨rfl, rfl⟩ := h.unique haround
  obtain ⟨rfl, rfl⟩ := h.unique haround'
  obtain ⟨result, hresult, hlength⟩ :=
    (fitText_of_baseColorText htext).replaced_name hbefore hafter hroll hbegins
  have hshort := hextended.length_eq
  rw [hr.unique hresult] at hshort
  have hlong := hlong.length_eq
  omega

/-- The published description is the asked puck's. -/
theorem AroundName.describes (h : AroundName rawSdf before after)
    (htext : baseColorText baseColor = some (newColor, colorString))
    (hr : Strings.Replaced oldColor.toList newColor.toList
      (before ++ ((puckName roll).toList ++ after)) text)
    (hextended : Extended colorString text sdf.toList) (hname : ¬ NameBeginsColor roll rawSdf) :
    Describes rawSdf (puckName roll) baseColor sdf := by
  have fit := fitText_of_baseColorText htext
  obtain ⟨before', hbefore⟩ := fit.replaces.exists_replaced before
  obtain ⟨after', hafter⟩ := fit.replaces.exists_replaced after
  have hdigit : ¬ (roll % 10 = 1 ∧ oldColor.toList.tail <+: after) := by
    rintro ⟨hroll, hbegins⟩
    exact hname ⟨hroll, before, after, h, hbegins⟩
  rw [hr.unique (fit.replaced_renamed hbefore hafter hdigit)] at hextended
  exact ⟨newColor, colorString, htext, fun _ => fit.loads, before, after, before', after', h,
    hbefore, hafter, hextended⟩

/-- Spawning from a template that has the name, for a colour that a base can have. -/
theorem AroundName.cleanly_iff (h : AroundName rawSdf before after)
    (htext : baseColorText baseColor = some (newColor, colorString)) :
    SpawnsCleanly (some rawSdf) spawnPose baseColor roll factoryPub ↔
      pluginString.toList <:+: rawSdf.toList ∧ nul ∉ rawSdf.toList ∧
        ¬ NameBeginsColor roll rawSdf := by
  have fit := fitText_of_baseColorText htext
  have hcolor : nul ∉ oldColor.toList := by decide
  obtain ⟨text, hr⟩ := fit.replaces.exists_replaced (before ++ ((puckName roll).toList ++ after))
  by_cases hplugin : pluginString.toList <:+: rawSdf.toList
  · obtain ⟨sdf, hsdf, hextended⟩ := h.exists_spawnSdf hr fit ((h.infix_iff hr fit).mpr hplugin)
    -- no NUL is added, and none is lost before the cut
    have hnul : nul ∈ sdf.toList ↔ nul ∈ rawSdf.toList := by
      rw [hextended.nul_mem_iff fit, hr.mem_iff hcolor fit.noNul.1, h.nul_mem_iff,
        List.mem_append, List.mem_append]
      simp only [not_nul_mem_puckName, false_or]
    rw [spawnsCleanly_of_spawnSdf htext hsdf]
    constructor
    · intro hdescribes
      have hno : nul ∉ rawSdf.toList := fun hmem =>
        Strings.not_nul_mem_cString sdf (hdescribes.nul_mem hmem)
      rw [Strings.cString_eq (mt hnul.mp hno)] at hdescribes
      exact ⟨hplugin, hno, fun hname => h.not_describes htext hr hextended hname hdescribes⟩
    · rintro ⟨-, hno, hname⟩
      rw [Strings.cString_eq (mt hnul.mp hno)]
      exact h.describes htext hr hextended hname
  · -- the exception
    have hsdf := h.spawnSdf_of_not_infix hr fit (mt (h.infix_iff hr fit).mp hplugin)
    refine iff_of_false ?_ fun hall => hplugin hall.1
    rw [SpawnsCleanly, spawnPuckFrom_of_outOfRange htext hsdf]
    exact id

end

/-- Spawning from a template fails cleanly or gives what is asked for, exactly if the colour is
none that a base can have, or a template with the name has the element of the plugin and no zero
character, and the new name does not end with the beginning of an old colour. -/
theorem spawnsCleanly_iff {Pose : Type} (file : Option String) (spawnPose : Pose)
    (baseColor : Color) (roll : ℕ) (factoryPub : List (Factory Pose)) :
    SpawnsCleanly file spawnPose baseColor roll factoryPub ↔
      baseColorText baseColor = none ∨
        ∀ rawSdf, file = some rawSdf → oldName.toList <:+: rawSdf.toList →
          pluginString.toList <:+: rawSdf.toList ∧ nul ∉ rawSdf.toList ∧
            ¬ NameBeginsColor roll rawSdf := by
  cases htext : baseColorText baseColor with
  | none =>
    exact iff_of_true (spawnsCleanly_of_empty (spawnPuckFrom_of_no_color htext file)) (.inl rfl)
  | some text =>
    cases file with
    | none => exact iff_of_true (.inl ⟨rfl, rfl⟩) (.inr nofun)
    | some rawSdf =>
      by_cases hname : oldName.toList <:+: rawSdf.toList
      · obtain ⟨before, after, haround⟩ := exists_aroundName hname
        rw [haround.cleanly_iff htext]
        simp [hname]
      · apply iff_of_true
        · exact spawnsCleanly_of_empty (spawnPuckFrom_of_no_name hname)
        · right
          intro raw hraw hocc
          cases hraw
          exact absurd hocc hname

/-- A template whose plugin has its attributes in another order. -/
theorem spawnPuckFrom_reordered :
    ¬ SpawnsCleanly
      (some ("<model name=\"workpiece_base\">" ++
        "<plugin filename=\"libpuck.so\" name=\"Puck\"/></model>")) () .RED 0 [] := by
  have hthrown : spawnPuckFrom
      (some ("<model name=\"workpiece_base\">" ++
        "<plugin filename=\"libpuck.so\" name=\"Puck\"/></model>")) () .RED 0 [] =
      .error .outOfRange := by
    decide +kernel
  rw [SpawnsCleanly, hthrown]
  exact id

end Mps

end GazeboRcll
