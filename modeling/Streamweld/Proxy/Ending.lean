import Streamweld.Proxy.Control

/-!
# The end of a stream

A stream ends once: after the block that sets `terminal`, no interleaving of writers,
refusals and readers commits another entry or changes how the stream ended
(`ended_stream_is_final`).
-/

namespace Streamweld.Proxy

open Streamweld.Journal Streamweld.Lib

variable {choice : Choice} {r r' : Runtime} {s s' t : System} {event : StreamEvent}
  {action : Action} {next : Next} {refusal : Refusal}

/-- What is final when a stream has ended. -/
structure Runtime.Agrees (r r' : Runtime) : Prop where
  terminal : r'.terminal = r.terminal
  records : r'.journal.records = r.journal.records
  lastSeq : r'.lastSeq = r.lastSeq
  degraded : r'.degraded = r.degraded

theorem Runtime.Agrees.refl (r : Runtime) : r.Agrees r := ⟨rfl, rfl, rfl, rfl⟩

/-- The actions that change an outcome are pending only before the end. -/
theorem Exec.agrees (h : Exec choice r action r' next) (hsound : action.Sound r refusal)
    (hended : r.terminal.isSome = true) : r.Agrees r' := by
  have hsome : r.terminal ≠ none := Option.isSome_iff_ne_none.mp hended
  cases h with
  | refused | broadcast | enqueue | relay | release | closeFeed | depart | cancel =>
    exact ⟨rfl, rfl, rfl, rfl⟩
  | checkRelay _ hterminal | checkAppend _ hterminal => exact absurd hterminal hsome
  | checkClose hterminal | checkGuard hterminal => exact absurd hterminal hsome
  | offer =>
    unfold Runtime.publishFirst
    split <;> exact ⟨rfl, rfl, rfl, rfl⟩
  | appendNil | appendOk | appendFail | mirror | degradeAgain | degrade | activate =>
    exact absurd hsound hsome
  | buildDegraded | build | closeOk | closeFail | finish | finishDegraded | warnNil | warnOk
  | warnFail | closeRefusedOk | closeRefusedFail | finishRefused => exact absurd hsound.1 hsome

theorem System.Control.agrees (h : s.Control) (hstep : Step s event s')
    (hended : s.runtime.terminal.isSome = true) : s.runtime.Agrees s'.runtime := by
  cases hstep with
  | lock | unlock | refusalLock | rollback | markClosed | claim | leases | resume =>
    exact ⟨rfl, rfl, rfl, rfl⟩
  | go hwriter hexec | leave hwriter hexec =>
    exact hexec.agrees (h.inv.sound _ (System.script_some hwriter ▸ List.mem_cons_self)) hended
  | refuse hterminal | reserve hterminal => exact absurd hterminal (Option.isSome_iff_ne_none.mp hended)
  | refusalStep hrefusal hexec =>
    rw [hexec.trailing (h.epilogue _ hrefusal _ List.mem_cons_self)]
    exact ⟨rfl, rfl, rfl, rfl⟩
  | markDegraded _ hending => exact ⟨rfl, LogStream.records_degrade _ hending, rfl, rfl⟩
  | reader _ hreader =>
    rw [(ReadersOnly.step hreader).rest]
    exact ⟨rfl, rfl, rfl, rfl⟩

/-- The stream has ended, as it had in `s`. -/
structure System.EndedAs (s t : System) : Prop where
  control : t.Control
  ended : t.runtime.terminal.isSome = true
  agrees : s.runtime.Agrees t.runtime

theorem System.EndedAs.step (h : t.EndedAs s) (hstep : Step s event s') : t.EndedAs s' := by
  obtain ⟨hterminal, hrecords, hlastSeq, hdegraded⟩ := h.control.agrees hstep h.ended
  exact ⟨h.control.step hstep, hterminal ▸ h.ended, hterminal.trans h.agrees.terminal,
    hrecords.trans h.agrees.records, hlastSeq.trans h.agrees.lastSeq,
    hdegraded.trans h.agrees.degraded⟩

/-- Once a stream has ended, what was committed and how it ended is final, its lease has
been handed over for release, and nobody is closing it. -/
theorem ended_stream_is_final (id : StreamID) (metadata : Meta) (lease : LeaseID)
    (maxLagBytes : Int) (verbose : Bool) (events later : List StreamEvent) (s t : System)
    (hrun : run System.step (System.start id metadata lease maxLagBytes verbose) events = some s)
    (hended : s.runtime.terminal.isSome = true) (hlater : run System.step s later = some t) :
    s.runtime.Agrees t.runtime ∧ t.runtime.terminating = false ∧
      t.runtime.currentLease = none ∧ t.runtime.done = true := by
  have hcontrol : s.Control := inv_of_run (fun _ _ _ h hstep => h.step (System.step_spec hstep))
    (System.Control.start id metadata lease maxLagBytes verbose) hrun
  have hstart : s.EndedAs s := ⟨hcontrol, hended, .refl _⟩
  have hfinal : s.EndedAs t :=
    inv_of_run (fun _ _ _ h hstep => h.step (System.step_spec hstep)) hstart hlater
  obtain ⟨hdone, -, hlease⟩ := hfinal.control.inv.ended hfinal.ended
  exact ⟨hfinal.agrees, hfinal.control.inv.lowered hfinal.ended, hlease, hdone⟩

/-- The stream is closed with an error. -/
def closingRun : List StreamEvent :=
  .lock .other (.closeTerminal sampleRefusal .always) :: List.replicate 4 (.write {})

/-- The closing function returns, and a chunk comes too late. -/
def lateChunkRun : List StreamEvent :=
  List.replicate 5 (.write {}) ++ [.lock .producer (.appendChunk sampleEvent), .write {}]

theorem ended_stream_is_final_of_late_chunk :
    ∃ s t, run System.step sampleStream closingRun = some s ∧
      run System.step s lateChunkRun = some t ∧ s.runtime.journal.records.length = 2 ∧
      s.runtime.Agrees t.runtime := by
  refine ⟨_, _, rfl, rfl, rfl, ?_⟩
  exact (ended_stream_is_final sampleID sampleMeta 7 1000 true closingRun lateChunkRun _ _
    rfl rfl rfl).1

end Streamweld.Proxy
