import AdkRust.Core.Time
import AdkRust.Lib.Ticks

/-!
# Cron triggers

A trigger with a watermark store (`cron_trigger.rs`, `watermark.rs`): a stream that replays the ticks it missed, then
sleeps until the next one, and writes down how far it has come before each event.

* `CronTrigger`, `MissedTickPolicy`: the trigger. `CronTrigger.catchUp`: what a catch-up pass replays.
* `Phase`: where a stream stands; between any two phases it can be dropped, or the process can stop.
* `CronTrigger.step`: one step of a subscription, with what the clock reads.
-/

namespace Adk

namespace Ambient

/-- What a trigger does about ticks that came due while it was not watching. -/
inductive MissedTickPolicy where
  | skip
  | coalesceOne
  | all
  deriving DecidableEq

/-- A trigger with a watermark store. -/
structure CronTrigger where
  expression : String
  schedule : Ticks Utc
  missedTickPolicy : MissedTickPolicy := .skip
  /-- Ticks a catch-up pass will replay before the remainder of the gap is discarded. -/
  maxCatchUp : Nat := 64
  capped : 0 < maxCatchUp := by decide

/-- A tick that is to be emitted. -/
structure Due where
  /-- What the watermark is set to before. -/
  mark : Option Utc
  scheduledFor : Utc
  catchUp : Bool
  /-- How many ticks it stands for, and whether the cap was reached. -/
  missed : Option (Nat × Bool) := none
  /-- The span that it stands for. -/
  gap : Option (Utc × Utc) := none
  deriving DecidableEq

/-- A tick that was emitted, and when. -/
structure Fired where
  due : Due
  tick : Utc
  deriving DecidableEq

/-- What a stream does after it has emitted what is due. -/
inductive Then where
  | waits (cursor : Utc)
  | loops (cursor : Utc)
  deriving DecidableEq

def Then.cursor : Then → Utc
  | .waits cursor | .loops cursor => cursor

inductive Phase where
  | idle
  /-- The watermark was read, and the stream has not been polled. -/
  | subscribed (restored : Option Utc)
  | top (cursor : Utc)
  | emitting (rest : List Due) (next : Then)
  /-- The watermark of an event was written, and the event is still to come. -/
  | yielding (due : Due) (rest : List Due) (next : Then)
  | choosing (cursor : Utc)
  | sleeping (nextTick : Utc)
  /-- The schedule has no more ticks. -/
  | exhausted
  deriving DecidableEq

/-- The store and the stream, and what was seen of them. -/
structure CronWorld where
  watermark : Option Utc := none
  /-- The last reading of the clock. -/
  clock : Utc
  phase : Phase := .idle
  fired : List Fired := []
  /-- The events whose watermark was written when their subscription ended. -/
  lost : List Due := []
  /-- The spans for which one event was to stand. -/
  gaps : List (Utc × Utc) := []
  /-- How many subscriptions have ended. -/
  ended : Nat := 0
  /-- When the first subscription began. -/
  began : Option Utc := none
  /-- The last poll that found nothing due. -/
  waited : Option Utc := none
  /-- Whether the cap has cut a gap off. -/
  cutOff : Bool := false
  deriving DecidableEq

/-- The events that are lost where a stream ends. -/
def Phase.unsent : Phase → List Due
  | .yielding due _ _ => [due]
  | _ => []

/-- What may happen: a subscription, a step of its stream, or the end of it at any point. -/
inductive CronMove where
  | subscribe (now : Utc)
  | poll (now : Utc)
  | stop

namespace CronTrigger

/-- One event for each tick. Where the cap was reached the last one accounts for the whole gap. -/
def replays (now : Utc) (truncated : Bool) : List Utc → List Due
  | [] => []
  | [tick] => [{ mark := some (if truncated then now else tick), scheduledFor := tick, catchUp := true }]
  | tick :: ticks => { mark := some tick, scheduledFor := tick, catchUp := true } :: replays now truncated ticks

def catchUp (trigger : CronTrigger) (cursor now : Utc) (missed : List Utc) (truncated : Bool) : List Due :=
  match trigger.missedTickPolicy with
  | .skip => []
  | .coalesceOne =>
    match missed.getLast? with
    | none => []
    | some scheduledFor => [{
        mark := some (if truncated then now else scheduledFor)
        scheduledFor
        catchUp := true
        missed := some (missed.length, truncated)
        gap := some (cursor, now) }]
  | .all => replays now truncated missed

/-- The event of a tick that the stream slept for. -/
def live (trigger : CronTrigger) (tick : Utc) : Due where
  mark := if trigger.missedTickPolicy = .skip then none else some tick
  scheduledFor := tick
  catchUp := false

/-- One step of a stream, when the clock reads `now`. -/
def advance (trigger : CronTrigger) (w : CronWorld) (now : Utc) : Option CronWorld :=
  match w.phase with
  | .idle => none
  | .subscribed restored => some { w with phase := .top (restored.getD now) }
  | .top cursor =>
    if trigger.missedTickPolicy = .skip then some { w with phase := .choosing now }
    else
      let (missed, truncated) := trigger.schedule.elapsed cursor now trigger.maxCatchUp
      let resumed := if truncated then now else missed.getLast?.getD cursor
      some { w with
        phase := .emitting (trigger.catchUp cursor now missed truncated) (.waits resumed)
        cutOff := w.cutOff || truncated }
  | .emitting [] (.waits cursor) => some { w with phase := .choosing cursor }
  | .emitting [] (.loops cursor) => some { w with phase := .top cursor }
  -- written before the event, which the consumer takes whenever it polls again
  | .emitting (due :: rest) next => some { w with
      watermark := due.mark.or w.watermark
      gaps := w.gaps ++ due.gap.toList
      phase := .yielding due rest next }
  | .yielding due rest next => some { w with fired := w.fired ++ [⟨due, now⟩], phase := .emitting rest next }
  | .choosing cursor =>
    match trigger.schedule.after cursor with
    | none => some { w with phase := .exhausted, waited := some now }
    | some nextTick => some { w with
        phase := .sleeping nextTick
        waited := if now < nextTick then some now else w.waited }
  | .sleeping nextTick =>
    if nextTick ≤ now then some { w with phase := .emitting [trigger.live nextTick] (.loops nextTick) }
    else some { w with waited := some now }
  | .exhausted => some { w with waited := some now }

/-- One move. The clock never goes back, and subscriptions come one after another. -/
def step (trigger : CronTrigger) (w : CronWorld) : CronMove → Option CronWorld
  | .subscribe now =>
    if w.phase = .idle ∧ w.clock ≤ now then some { w with
      clock := now
      began := w.began.or (some now)
      phase := .subscribed (if trigger.missedTickPolicy = .skip then none else w.watermark) }
    else none
  | .poll now => if w.clock ≤ now then trigger.advance { w with clock := now } now else none
  | .stop =>
    if w.phase = .idle then none
    else some { w with phase := .idle, lost := w.lost ++ w.phase.unsent, ended := w.ended + 1 }

/-- The moves one after another. -/
def run (trigger : CronTrigger) (w : CronWorld) : List CronMove → Option CronWorld
  | [] => some w
  | move :: moves => (trigger.step w move).bind fun w' => trigger.run w' moves

end CronTrigger

end Ambient

end Adk
