import UtilityLayer.Layer.Critical
import UtilityLayer.Layer.Index
import UtilityLayer.Proofs.Css.Reading

/-!
# Themes of variables alone

A theme that is one `:root` block can always be read, whatever it declares, and
defines no utilities of its own.
-/

set_option autoImplicit false

namespace UtilityLayer.Layer

open Text Css Theme Utility

def rootTheme (declarations : Text) : Text := ":root ".toList ++ '{' :: (declarations ++ ['}'])

theorem authoredBySelector_root (body : Text) : authoredBySelector ":root" body = [] := by
  have read : (Selector.parseList ":root").map (fun xs => xs.map fun x => x.subjects.classes) =
      some [[]] := by
    decide +kernel
  obtain ⟨xs, parsed, classes⟩ := Option.map_eq_some_iff.mp read
  obtain ⟨x, rfl, none⟩ := List.map_eq_singleton_iff.mp classes
  rw [authoredBySelector.eq_def, parsed]
  dsimp only
  rw [none]
  rfl

theorem authoredByBlock_root (body : Text) : authoredByBlock ":root" body = [] := by
  have isRule : authoredByBlock ":root" body = authoredByRule ":root" body := rfl
  have split : splitOuter ',' ":root".toList = [":root".toList] := by decide
  have whole : normalize ":root".toList = ":root".toList := by decide
  rw [isRule, authoredByRule, split]
  split
  · rfl
  · rw [List.flatMap_cons, whole, authoredBySelector_root]
    rfl

theorem readSheet_rootTheme {declarations : Text} (h : Closes declarations) :
    readSheet (rootTheme declarations) = .ok [.block ":root" declarations] := by
  have ho : Opens ":root ".toList := ⟨by decide, by decide, by decide⟩
  have ht : ":root".toList = trim ":root ".toList := by decide
  refine readSheet_eq_block_iff.mpr ⟨":root ".toList, [], ho, h, ht, ?_, readItems_of_gap rfl, rfl⟩
  exact skipGap_cons (by decide) _

theorem themeLeaves_rootTheme {declarations : Text} (h : Closes declarations)
    (plain : withoutComments (rootTheme declarations) = rootTheme declarations) :
    themeLeaves (rootTheme declarations) = .ok [.block ":root" declarations] := by
  rw [themeLeaves, plain, readTree_eq, readSheet_rootTheme h]
  rfl

theorem build_rootTheme {declarations : Text} (h : Closes declarations)
    (plain : withoutComments (rootTheme declarations) = rootTheme declarations)
    (colors : Colors) :
    Index.build (rootTheme declarations) colors =
      .ok (.ofParts (Variables.ofSheet (rootTheme declarations)) .empty colors) := by
  have leaves := themeLeaves_rootTheme h plain
  have none : authored (rootTheme declarations) = [] := by
    rw [authored, leaves]
    have all : beforeError [.block ":root".toList declarations] =
      [.block ":root".toList declarations] := rfl
    dsimp only
    rw [all, List.flatMap_cons, authoredByNode, authoredByBlock_root]
    rfl
  rw [Index.build, Collection.ofSheet, leaves, none]
  rfl

def colorTheme : Text := ":root \x7b --primary: red; \x7d"

def colorVariables : Variables := ⟨[("--primary", "red")], by decide⟩

def colorIndex : Index := .ofParts colorVariables .empty .all

theorem variables_colorTheme : Variables.ofSheet colorTheme = colorVariables := by
  have entries : (Variables.ofSheet colorTheme).entries = colorVariables.entries := by
    decide +kernel
  cases h : Variables.ofSheet colorTheme
  rw [h] at entries
  cases entries
  rfl

theorem build_colorTheme : Index.build colorTheme .all = .ok colorIndex := by
  have closes : Closes " --primary: red; ".toList := ⟨by decide, by decide⟩
  have root : rootTheme " --primary: red; " = colorTheme := by decide
  have h := build_rootTheme closes (by decide) .all
  rw [root, variables_colorTheme] at h
  exact h

end UtilityLayer.Layer
