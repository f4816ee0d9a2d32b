import OriginCache.Cache.Flights
import OriginCache.Cache.Inflight

/-! Both registries at once: the one for downloads, whose driver outlives every caller,
and the one for calls, where a caller is its own driver. -/

namespace OriginCache.Cache.SingleFlight
open Foundation.Runs

theorem registries_single {κ β : Type} [DecidableEq κ] {flights : Flights.System κ} {calls : Inflight.System κ β}
    (downloads : Reaches Flights.machine (fun s label => Flights.heard s label = true) flights)
    (runs : Reaches Inflight.machine (fun _ _ => True) calls) : Flights.Single flights ∧ Inflight.Single calls :=
  ⟨Flights.kept_single flights (Flights.reached_kept downloads), Inflight.kept_single calls (Inflight.reached_kept runs)⟩

/-- Two callers of one download; a third starts the next one before they look. -/
def succession : List (Flights.Label Nat) :=
  [.call 0 7, .caller 0 (.join 0), .call 1 7, .caller 1 (.join 1), .caller 0 .subscribe, .caller 1 .subscribe,
    .driver 0 .start, .driver 0 (.report (.failed .download)), .driver 0 .guard, .driver 0 .remove,
    .call 2 7, .caller 2 (.join 1), .caller 0 .look, .caller 1 .look]

/-- The leader is dropped and a waiter leads; its value outlives the key. -/
def handover : List (Inflight.Label Nat Nat) :=
  [.call 0 7, .caller 0 (.join 0), .call 1 7, .caller 1 (.join 1), .caller 0 .lead, .caller 0 .drop, .caller 1 .lead,
    .call 2 7, .caller 2 (.join 1), .caller 1 (.finish 5), .caller 1 (.settle 0), .sweep 0, .call 3 7,
    .caller 3 (.join 1), .caller 3 .lead, .caller 2 .take]

theorem succession_single :
    (∃ s, Reaches Flights.machine (fun s label => Flights.heard s label = true) s ∧ s.map.lookup 7 = some 1 ∧
      s.callers.lookup 1 = some ⟨7, .received 0 (.failed .download)⟩ ∧ Flights.Single s) ∧
    ∃ t : Inflight.System Nat Nat, Reaches Inflight.machine (fun _ _ => True) t ∧
      t.callers.lookup 2 = some ⟨7, .settling 0 5⟩ ∧ t.callers.lookup 3 = some ⟨7, .leading 1⟩ ∧
      Inflight.Single t := by
  obtain ⟨s, downloads, succeeded⟩ := exists_reached Flights.machine (fun s label => Flights.heard s label = true)
    succession (show Flights.machine.initial Flights.empty from rfl)
    (fun s => decide (s.map.lookup 7 = some 1 ∧ s.callers.lookup 1 = some ⟨7, .received 0 (.failed .download)⟩))
    (by decide)
  obtain ⟨t, runs, handed⟩ := exists_reached Inflight.machine (fun _ _ => True) handover
    (show Inflight.machine.initial Inflight.empty from rfl)
    (fun t => decide (t.callers.lookup 2 = some ⟨7, .settling 0 5⟩ ∧ t.callers.lookup 3 = some ⟨7, .leading 1⟩))
    (by decide)
  have single := registries_single downloads runs
  obtain ⟨next, told⟩ := of_decide_eq_true succeeded
  obtain ⟨took, leads⟩ := of_decide_eq_true handed
  exact ⟨⟨s, downloads, next, told, single.1⟩, ⟨t, runs, took, leads, single.2⟩⟩

/-- The download fails before either caller subscribes. -/
def unheard : List (Flights.Label Nat) :=
  [.call 0 7, .caller 0 (.join 0), .call 1 7, .caller 1 (.join 1), .driver 0 .start,
    .driver 0 (.report (.failed .download)), .caller 1 .subscribe, .driver 0 .guard, .caller 1 .look]

/-- The caller is told that the driver died. -/
theorem unheard_misreports : ∃ s : Flights.System Nat, Reaches Flights.machine (fun _ _ => True) s ∧
    (s.entries.lookup 0).bind (·.outcome) = some (.failed .download) ∧
    s.callers.lookup 1 = some ⟨7, .received 0 (.failed .died)⟩ ∧ ¬ Flights.Single s := by
  obtain ⟨s, reached, test⟩ := exists_reached Flights.machine (fun _ _ => True) unheard
    (show Flights.machine.initial Flights.empty from rfl)
    (fun s => decide ((s.entries.lookup 0).bind (·.outcome) = some (.failed .download) ∧
      s.callers.lookup 1 = some ⟨7, .received 0 (.failed .died)⟩)) (by decide)
  obtain ⟨outcome, told⟩ := of_decide_eq_true test
  refine ⟨s, reached, outcome, told, fun single => ?_⟩
  obtain ⟨entry, found, -, given⟩ := single.told 1 _ 0 _ told rfl
  rw [found, Option.bind_some, given] at outcome
  cases outcome

end OriginCache.Cache.SingleFlight
