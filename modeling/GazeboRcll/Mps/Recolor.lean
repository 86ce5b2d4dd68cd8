import GazeboRcll.Library.Replace
import GazeboRcll.Mps.Runs

/-!
# The description of a new workpiece

`spawn_puck` makes the description of a workpiece from a template: it replaces the name of the
model, the colour in a loop, and the element of the plugin. The loop ends for every text, and
leaves nothing of the colour of the template (`recolor_terminates`).
-/

namespace GazeboRcll

namespace Mps

def oldName : String := "workpiece_base"

def oldColor : String := "1.0 0.35 0.0 1"

def pluginString : String := "<plugin name=\"Puck\" filename=\"libpuck.so\"/>"

/-- The element of the plugin with the colour of the base. -/
def newPluginString (colorString : String) : String :=
  "<plugin name=\"Puck\" filename=\"libpuck.so\"><baseColor>" ++ colorString ++
    "</baseColor></plugin>"

/-- The loop over the occurrences of the old colour; `none` if it is not done after so many
turns. The place that a turn looks up at its end is looked up again by the next test. -/
def recolor (turns : ℕ) (newColor newSdf : String) : Option String :=
  (Strings.replaceAll oldColor.toList newColor.toList turns newSdf.toList).map String.ofList

/-- How often the old colour occurs. -/
def oldColors (newSdf : String) : ℕ := Strings.occurrences oldColor.toList newSdf.toList

/-- Why there is no description: `spawn_puck` returns the empty string, or `erase` throws an
exception. -/
inductive SdfError where
  | noName | outOfRange
deriving DecidableEq, Repr

/-- The description that `spawn_puck` makes of a template. -/
def spawnSdf (rawSdf newName newColor colorString : String) : Except SdfError String :=
  match Strings.find rawSdf oldName with
  | none => .error .noName
  | some namePos =>
    let newSdf := Strings.replace rawSdf namePos oldName.length newName
    let newSdf := (recolor (oldColors newSdf) newColor newSdf).getD newSdf
    match Strings.find newSdf pluginString with
    | none => .error .outOfRange
    | some stringPos =>
      .ok (Strings.replace newSdf stringPos pluginString.length (newPluginString colorString))

variable {rawSdf newName newColor colorString newSdf sdf : String} {baseColor : Color}

/-- The new colours do not complete an occurrence of the old one. -/
theorem replaces_of_baseColorText
    (h : baseColorText baseColor = some (newColor, colorString)) :
    Strings.Replaces oldColor.toList newColor.toList := by
  unfold baseColorText at h
  split at h
  · cases h
    decide +kernel
  · cases h
    decide +kernel
  · cases h
    decide +kernel
  · cases h

/-- A text that can be replaced is recoloured in as many steps as it occurs. -/
theorem recolor_of_replaces (h : Strings.Replaces oldColor.toList newColor.toList)
    (newSdf : String) :
    ∃ result, recolor (oldColors newSdf) newColor newSdf = some result ∧
      ¬ oldColor.toList <:+: result.toList ∧
      Strings.Replaced oldColor.toList newColor.toList newSdf.toList result.toList := by
  have hturns : Strings.occurrences oldColor.toList newSdf.toList ≤ oldColors newSdf := le_refl _
  obtain ⟨result, hresult, hnot⟩ := h.replaceAll_terminates hturns
  refine ⟨.ofList result, by rw [recolor, hresult]; rfl, ?_⟩
  rw [String.toList_ofList]
  exact ⟨hnot, Strings.replaced_of_replaceAll hresult⟩

/-- The loop of `spawn_puck` is done after at most as many turns as the old colour occurs, and
the old colour does not occur in its result, which is the text with the new colour at the place of
the first occurrence, again and again. -/
theorem recolor_terminates (baseColor : Color) (newColor colorString : String)
    (h : baseColorText baseColor = some (newColor, colorString)) (newSdf : String) :
    ∃ result, recolor (oldColors newSdf) newColor newSdf = some result ∧
      ¬ oldColor.toList <:+: result.toList ∧
      Strings.Replaced oldColor.toList newColor.toList newSdf.toList result.toList :=
  recolor_of_replaces (replaces_of_baseColorText h) newSdf

/-- Two overlapping occurrences take two turns. -/
theorem recolor_terminates_overlap :
    ∃ result, recolor 2 "0.8 0.8 0.8 1" "1.0 0.35 0.0 1.0 0.35 0.0 1" = some result ∧
      ¬ oldColor.toList <:+: result.toList ∧
      Strings.Replaced oldColor.toList "0.8 0.8 0.8 1".toList
        "1.0 0.35 0.0 1.0 0.35 0.0 1".toList result.toList := by
  have hcount : oldColors "1.0 0.35 0.0 1.0 0.35 0.0 1" = 2 := by decide +kernel
  rw [← hcount]
  exact recolor_terminates .SILVER "0.8 0.8 0.8 1" "SILVER" rfl _

end Mps

end GazeboRcll
