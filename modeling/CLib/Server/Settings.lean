import CLib.Agent.Config
import CLib.Server.Config

namespace CLib.Server
open CLib.Base CLib.Settings

/-- The calls of `set_parameter` that `load_connect_config` makes for a line. -/
def lineCalls (line : Text) : Option (List (Text × Text)) := Settings.lineCalls line

/-- `load_connect_config`; `none` is a file that cannot be read, and the result 0, or one with
a line for which there are no calls. -/
def loadConnectConfig (file : Option Text) : Option Config :=
  file.bind fun t => ((getlines t).mapM lineCalls).map fun calls => loadSettings calls.flatten

/-- Both copies of the parser read a spelling of a setting back exactly if there is no second
sign in the value, no NUL byte in the setting, and `pos` gets through the line. For a line that
lacks the key or the value they end without a call if `pos` gets through it, and the buffers
have room. -/
theorem settings_round_trip_iff (k : Key) (v : Value) :
    (∀ line, Spells (setting k v) line →
        (Agent.lineCalls line = some [(k.text, v.text)] ↔
          '=' ∉ v.text ∧ nul ∉ k.text ∧ nul ∉ v.text ∧ (body line).length < posRange) ∧
        (lineCalls line = some [(k.text, v.text)] ↔
          '=' ∉ v.text ∧ nul ∉ k.text ∧ nul ∉ v.text ∧ (body line).length < posRange)) ∧
      ∀ u line, Incomplete u → Spells u line →
        (Agent.lineCalls line = some [] ↔ (body line).length < posRange ∧ HasRoom (body line)) ∧
        (lineCalls line = some [] ↔ (body line).length < posRange ∧ HasRoom (body line)) := by
  constructor
  · intro line hline
    exact ⟨lineCalls_spells_iff hline, lineCalls_spells_iff hline⟩
  · intro u line hu hline
    exact ⟨lineCalls_incomplete_iff hu hline, lineCalls_incomplete_iff hu hline⟩

def passwordKey : Key :=
  ⟨"password".toList, by decide, List.forall_iff_forall_mem.mp (by decide), by decide⟩

def equalsValue : Value :=
  ⟨"a=b".toList, by decide, List.forall_iff_forall_mem.mp (by decide), by decide⟩

/-- The line `password=a=b` sets the password `ab`. -/
theorem not_roundTrips_equalsValue :
    Agent.lineCalls "password=a=b".toList = some [("password".toList, "ab".toList)] ∧
      lineCalls "password=a=b".toList = some [("password".toList, "ab".toList)] ∧
      ¬ (∀ k v, RoundTrips Agent.lineCalls k v) ∧ ¬ ∀ k v, RoundTrips lineCalls k v := by
  have hcalls : Settings.lineCalls "password=a=b".toList = some [("password".toList, "ab".toList)] := by
    decide +kernel
  have hnot : ¬ RoundTrips Settings.lineCalls passwordKey equalsValue := by
    intro h
    have hline := h (setting passwordKey equalsValue) (spells_self _ _)
    revert hline
    decide +kernel
  exact ⟨hcalls, hcalls, fun h => hnot (h _ _), fun h => hnot (h _ _)⟩

end CLib.Server
