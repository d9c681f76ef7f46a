import Catchb.Settings

/-! What `getConfig` returns of what `setConfig` has set. -/

namespace Catchb.Proofs.SetConfig
open Lib Settings

/-- `c` is returned to an empty configuration, and setting it again changes nothing. The client's
section is no part of this. -/
structure Inverse (s : Settings) (c : Config) : Prop where
  back : ∀ e : Config, e.xSwitchModels.pList = [] →
    { (s.setConfig c).getConfig e with xClient := c.xClient } = c
  again : (s.setConfig c).setConfig c = s.setConfig c

theorem get_set (s : Settings) (c e : Config) : (s.setConfig c).getConfig e = { c with
    xSwitchModels := ⟨c.xSwitchModels.pPath,
      e.xSwitchModels.pList ++ (s.xSwitchModels.pList ++ c.xSwitchModels.pList)⟩
    xClient := e.xClient } := rfl

theorem set_set (s : Settings) (c : Config) : (s.setConfig c).setConfig c = { s.setConfig c with
    xSwitchModels := ⟨c.xSwitchModels.pPath,
      s.xSwitchModels.pList ++ c.xSwitchModels.pList ++ c.xSwitchModels.pList⟩ } := rfl

/-- Only the list of models is not overwritten. -/
theorem inverse_iff (s : Settings) (c : Config) :
    Inverse s c ↔ s.xSwitchModels.pList = [] ∧ c.xSwitchModels.pList = [] := by
  constructor
  · intro h
    have hback := congrArg (fun c => c.xSwitchModels.pList) (h.back .default rfl)
    have hagain := congrArg (fun s => s.xSwitchModels.pList) h.again
    simp only [get_set, Config.default, List.nil_append] at hback
    simp only [setConfig] at hagain
    exact ⟨List.append_left_eq_self.mp hback, List.append_right_eq_self.mp hagain⟩
  · rintro ⟨hs, hc⟩
    constructor
    · intro e he
      rw [get_set, he, hs, List.nil_append, List.nil_append]
    · rw [set_set, setConfig, hs, hc]
      rfl

/-- A configuration with one model. -/
def oneModel : Config :=
  { Config.default with xSwitchModels := ⟨Field.empty _, [⟨1, Field.copy _ "nst".toList⟩]⟩ }

theorem model_repeated : ¬Inverse create oneModel := by
  intro h
  have hlist := congrArg (fun s => s.xSwitchModels.pList.length) h.again
  cases hlist

end Catchb.Proofs.SetConfig
