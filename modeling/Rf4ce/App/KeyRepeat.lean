import Rf4ce.Os.TimerEvent
import Rf4ce.Ota.Types

/-! The timer of `app_data.c` that repeats a held key. -/
namespace Rf4ce.App
open Os Ota

def appSendingIrState : Nat := 0x20

/-- The fields of `rcu_appVars` (and the state of `rcu_appInfo`) that key repeat uses. -/
structure KeyRepeat where
  configTimer : Option (Fin 12)
  coutchCnt : Nat
  keyCode : Nat
  bfRepeat : Bool
  inRfRpt : Bool
  state : Nat
  infoState : Nat
deriving DecidableEq, Repr

def appRestoreState (v : KeyRepeat) : KeyRepeat := { v with state := v.infoState }

def appStopSendRepeateDataTimer (v : KeyRepeat) (l : TimerList 12 EvCb) : KeyRepeat × TimerList 12 EvCb :=
  ({ v with configTimer := none, inRfRpt := false, bfRepeat := false }, evUnonTimer v.configTimer l)

def appStartSendRepeateDataTimer (clock1us now rptTime : U32) (v : KeyRepeat) (l : TimerList 12 EvCb) :
    Option (KeyRepeat × TimerList 12 EvCb) :=
  (onTimer clock1us now .appSendRepeateDataTimerCb rptTime (evUnonTimer v.configTimer l)).map fun r =>
    ({ v with configTimer := some r.1, coutchCnt := 30000000 / rptTime.toNat % 65536 }, r.2)

/-- The part of the callback that counts down `coutchCnt`, an `u16`. -/
def appSendRepeateCount (v : KeyRepeat) (l : TimerList 12 EvCb) : KeyRepeat × TimerList 12 EvCb × Int :=
  let v' := { v with coutchCnt := (v.coutchCnt + 65535) % 65536 }
  if v.coutchCnt = 0 then
    let r := appStopSendRepeateDataTimer v' l
    ({ appRestoreState r.1 with bfRepeat := false, configTimer := none }, r.2, -1)
  else (v', l, 0)

def appSendRepeateDataTimerCb (v : KeyRepeat) (l : TimerList 12 EvCb) : KeyRepeat × TimerList 12 EvCb × Int :=
  if v.state = appSendingIrState then
    if v.bfRepeat = false then (appRestoreState v, l, -1)
    else appSendRepeateCount v l
  else if v.keyCode = 0xff then (appRestoreState { v with inRfRpt := false, bfRepeat := false }, l, -1)
  else appSendRepeateCount v l

end Rf4ce.App
