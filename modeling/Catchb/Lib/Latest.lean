import Mathlib.Data.List.Basic

namespace Catchb.Lib
variable {κ α : Type*}

/-- The newest entry of a log for a key. Logs are written newest first. -/
def latest (same : κ → κ → Bool) (log : List (κ × α)) (k : κ) : Option α :=
  (log.find? (fun e => same e.1 k)).map Prod.snd

variable {same : κ → κ → Bool}

@[simp] theorem latest_nil (k : κ) : latest same ([] : List (κ × α)) k = none := rfl

theorem latest_cons (e : κ × α) (log : List (κ × α)) (k : κ) :
    latest same (e :: log) k = if same e.1 k then some e.2 else latest same log k := by
  simp only [latest, List.find?_cons]
  cases same e.1 k <;> rfl

@[simp] theorem latest_cons_same {e : κ × α} {log : List (κ × α)} {k : κ}
    (h : same e.1 k = true) : latest same (e :: log) k = some e.2 := by
  simp [latest_cons, h]

@[simp] theorem latest_cons_other {e : κ × α} {log : List (κ × α)} {k : κ}
    (h : same e.1 k = false) : latest same (e :: log) k = latest same log k := by
  simp [latest_cons, h]

end Catchb.Lib
