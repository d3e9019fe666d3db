import BlockHeap.Proofs.Built

/-!
# Diagnostics

What an operation logs never decides what it does. At a high verbosity notices are worked out that are
not at a low one, and working one out can read tags and compute with words. But it never fails, because
whoever subtracts sizes compared them before, and it leaves nothing behind but the record. So runs at
different verbosities have the same answers and arenas, also when they fault and whatever is in the
memory, and the terser log is a part of the verbose one.
-/

namespace BlockHeap

/-- Whether a record of this severity is there at a verbosity. -/
def Severity.seenAt : Severity → Verbosity → Bool
  | warn, _ => true
  | info, level => Verbosity.info.rank ≤ level.rank
  | debug, level => Verbosity.verbose.rank ≤ level.rank

/-- What there is of a verbose log at another verbosity. -/
def Record.seen (level : Verbosity) (log : List Record) : List Record :=
  log.filter fun r => r.severity.seenAt level

lemma Record.seen_off (log : List Record) : seen .off log = log.filter fun r => r.severity = .warn := by
  unfold seen
  congr 1
  funext r
  cases r.severity <;> rfl

lemma Record.seen_info (log : List Record) :
    seen .info log = log.filter fun r => r.severity ≠ .debug := by
  unfold seen
  congr 1
  funext r
  cases r.severity <;> rfl

lemma Record.seen_warnings {level : Verbosity} {log : List Record}
    (h : ∀ r ∈ log, r.severity = .warn) : seen level log = log := by
  refine List.filter_eq_self.mpr fun r hr => ?_
  rw [h r hr]
  rfl

@[simp] lemma Event.records_append (xs ys : List Event) :
    records (xs ++ ys) = records xs ++ records ys :=
  List.filterMap_append

lemma Event.mem_records {events : List Event} {r : Record} :
    r ∈ records events ↔ .logged r ∈ events := by
  unfold records
  rw [List.mem_filterMap]
  constructor
  · rintro ⟨e, he, hr⟩
    cases e with
    | logged record => rwa [← Option.some.inj hr]
    | grow | shrink | answered | stray => exact absurd hr nofun
  · exact fun hr => ⟨.logged r, hr, rfl⟩

variable {σ α β : Type}

/-- The reply of a run at a verbosity beside that of the verbose run: the same result, the same arena
up to the verbosity, and the records that are seen. -/
structure Reply.Muted (level : Verbosity) (r loud : Reply σ α) : Prop where
  result : r.result = loud.result
  arena : r.arena = loud.arena.withVerbosity level
  records : Event.records r.events = Record.seen level (Event.records loud.events)

namespace Reply.Muted

variable {h : Arena σ} {level : Verbosity}

lemma of_warnings {r loud : Reply σ α} (hresult : r.result = loud.result)
    (harena : r.arena = loud.arena.withVerbosity level) (hevents : r.events = loud.events)
    (hwarn : ∀ record, .logged record ∈ loud.events → record.severity = .warn) :
    Muted level r loud := by
  refine ⟨hresult, harena, ?_⟩
  rw [hevents, Record.seen_warnings fun record hr => hwarn record (Event.mem_records.mp hr)]

/-- The verbose run leaves a verbose arena, so what follows can be compared from there. -/
theorem bind {m : Action σ α} {f : α → Action σ β}
    (hm : ∀ v, Muted v (m (h.withVerbosity v)) (m (h.withVerbosity .verbose)))
    (hf : ∀ x (k : Arena σ) v, Muted v (f x (k.withVerbosity v)) (f x (k.withVerbosity .verbose)))
    (level : Verbosity) :
    Muted level ((m >>= f) (h.withVerbosity level)) ((m >>= f) (h.withVerbosity .verbose)) := by
  obtain ⟨hresult, harena, hrecords⟩ := hm level
  have hkept := (hm .verbose).arena
  rcases hquiet : m (h.withVerbosity level) with ⟨result, k', events'⟩
  rcases hloud : m (h.withVerbosity .verbose) with ⟨_ | x, k, events⟩
  · rw [hquiet, hloud] at hresult harena hrecords
    simp only at hresult harena hrecords
    subst hresult harena
    rw [Action.bind_of_error hquiet, Action.bind_of_error hloud]
    exact ⟨rfl, rfl, hrecords⟩
  · rw [hloud] at hkept
    rw [hquiet, hloud] at hresult harena hrecords
    simp only at hresult harena hrecords hkept
    subst hresult harena
    obtain ⟨hlast, hend, hrest⟩ := hf x k level
    rw [← hkept] at hlast hend hrest
    rw [Action.bind_of_ok hquiet, Action.bind_of_ok hloud]
    refine ⟨hlast, hend, ?_⟩
    simp only [Event.records_append, hrecords, hrest]
    exact (List.filter_append _ _).symm

end Reply.Muted

namespace Action

open Reply (Muted)

/-- What a gentle notice leaves behind is the record, at the verbosities that reach its level. -/
lemma Gentle.diag_yields {notice : Action σ Notice} (hn : Gentle notice) (level : Verbosity)
    (h : Arena σ) : ∃ n, ∀ v,
      Yields (diag level notice) (h.withVerbosity v) () (h.withVerbosity v) ∧
      Event.records (diag level notice (h.withVerbosity v)).events =
        if level.rank ≤ v.rank then (level.severity?.map (Record.mk · n)).toList else [] := by
  obtain ⟨n, hyields⟩ := hn.yields h
  refine ⟨n, fun v => ⟨Yields.diag level (hyields v), ?_⟩⟩
  have hrun := reply_eq (hyields v).1 (hyields v).2
  have hsilent : Event.records (notice (h.withVerbosity v)).events = [] := by
    refine List.filterMap_eq_nil_iff.mpr fun e he => ?_
    obtain ⟨a, rfl⟩ := hn.strays _ e he
    rfl
  have hverbosity : (h.withVerbosity v).verbosity = v := rfl
  unfold diag
  rw [get_bind, hverbosity]
  split
  next =>
    cases level.severity? with
    | none => rfl
    | some severity =>
      simp only
      rw [bind_of_ok hrun, Event.records_append, hsilent]
      rfl
  next => rfl

/-- All that a segment logs are warnings. -/
lemma logged_echo {move : Segment.Move σ} {record : Record} (hr : .logged record ∈ echo move) :
    record.severity = .warn := by
  unfold echo at hr
  rcases List.mem_append.mp hr with hwarning | hanswer
  · obtain ⟨w, _, hw⟩ := List.mem_map.mp hwarning
    rw [← Event.logged.inj hw]
  · exact absurd hanswer (by simp)

lemma logged_strays [Segment σ] {h : Arena σ} {a : Nat} {record : Record} :
    .logged record ∉ strays h a := by
  unfold strays
  split <;> simp

/-- Whoever never looks at the verbosity but to log does the same at every verbosity. -/
theorem Built.muted [Segment σ] {Asks : Prop} {m : Action σ α} (hb : Built Asks m) (h : Arena σ)
    (level : Verbosity) :
    Muted level (m (h.withVerbosity level)) (m (h.withVerbosity .verbose)) := by
  induction hb generalizing h level with
  | pure | fault => exact .of_warnings rfl rfl rfl fun _ hr => absurd hr List.not_mem_nil
  | bind _ _ ihm ihf => exact .bind (ihm h) (fun x k => ihf x k) level
  | @words _ _ value _ _ ih =>
    cases value with
    | error => exact .of_warnings rfl rfl rfl fun _ hr => absurd hr List.not_mem_nil
    | ok x => exact ih x rfl h level
  | look blind _ ih =>
    rw [get_bind, get_bind, blind, blind]
    exact ih h h level
  | modify blind =>
    refine .of_warnings rfl ?_ rfl fun _ hr => absurd hr List.not_mem_nil
    simp only [Action.modify, blind, Arena.withVerbosity_withVerbosity]
  | warn =>
    refine .of_warnings rfl rfl rfl fun record hr => ?_
    rw [Event.logged.inj (List.mem_singleton.mp hr)]
  | diag reach gentle =>
    obtain ⟨n, hyields⟩ := gentle.diag_yields reach h
    obtain ⟨⟨hresult, harena⟩, hrecords⟩ := hyields level
    obtain ⟨⟨hloud, hloudArena⟩, hloudRecords⟩ := hyields .verbose
    refine ⟨hresult.trans hloud.symm, ?_, ?_⟩
    · rw [harena, hloudArena]
      rfl
    · rw [hrecords, hloudRecords]
      cases reach <;> cases level <;> rfl
  | load a | store a =>
    exact .of_warnings rfl rfl rfl fun _ hr => absurd hr logged_strays
  | grow asks bytes | shrink asks bytes =>
    refine .of_warnings rfl rfl rfl fun record hr => ?_
    rcases List.mem_cons.mp hr with hasked | hechoed
    · exact absurd hasked (by simp)
    · exact logged_echo hechoed

/-- A notice that can not be worked out is a fault, but only where it is worked out. -/
example (h : Arena σ) (v : Verbosity) :
    (diag .verbose (fault .subOverflow) (h.withVerbosity v)).result =
      if v = .verbose then .error .subOverflow else .ok () := by
  cases v <;> rfl

end Action

namespace Heap

variable [Segment σ]

/-- What the heap answers to some calls, one after the other, also after a fault. -/
def trace (h : Heap σ) : List Call → List (Outcome (Heap σ) (Option Nat))
  | [] => []
  | c :: calls => h.serve c :: (h.serve c).state.trace calls

/-- What a call answers and leaves behind, apart from the verbosity. -/
def effect (o : Outcome (Heap σ) (Option Nat)) : Except Fault (Option Nat) × Heap σ :=
  (o.result, o.state.setVerbosity .off)

/-- What there is of a verbose outcome at another verbosity. -/
def muted (level : Verbosity) (o : Outcome (Heap σ) (Option Nat)) : Outcome (Heap σ) (Option Nat) :=
  ⟨o.result, o.state.setVerbosity level, Record.seen level o.log⟩

lemma serve_muted (h : Heap σ) (c : Call) (level : Verbosity) :
    (h.setVerbosity level).serve c = muted level ((h.setVerbosity .verbose).serve c) := by
  have hserve : ∀ k : Heap σ, k.serve c = ⟨(c.action k.arena).result, ⟨(c.action k.arena).arena⟩,
      Event.records (c.action k.arena).events⟩ := by
    intro k
    rw [← (k.serve_eq c).1, ← (k.serve_eq c).2, ← k.serve_log c]
  have hbuilt : Action.Built True (c.action : Action σ _) := .action trivial c
  obtain ⟨hresult, harena, hrecords⟩ := hbuilt.muted h.arena level
  rw [hserve, hserve]
  unfold muted setVerbosity
  refine congr (congr (congrArg Outcome.mk hresult) (congrArg Heap.mk harena)) hrecords

/-- The calls at a verbosity answer what they answer at the highest one, step by step. -/
theorem trace_muted (h : Heap σ) (calls : List Call) (level : Verbosity) :
    (h.setVerbosity level).trace calls =
      ((h.setVerbosity .verbose).trace calls).map (muted level) := by
  induction calls generalizing h with
  | nil => rfl
  | cons c calls ih =>
    have hkept : ((h.setVerbosity .verbose).serve c).state =
        ((h.setVerbosity .verbose).serve c).state.setVerbosity .verbose :=
      congrArg Outcome.state (h.serve_muted c .verbose)
    have hrest := ih ((h.setVerbosity .verbose).serve c).state
    rw [← hkept] at hrest
    unfold trace
    rw [h.serve_muted c level, List.map_cons, ← hrest]
    rfl

/-- Whatever the heap is and whoever provides its segment, the calls answer the same at every verbosity,
faults included, and leave the same heap after every step, up to the verbosity, which stays what it is.
At the lowest one the log has just the warnings of the verbose one, and at the middle one all of it but
the details, step by step and in the same order. -/
theorem trace_observes (h : Heap σ) (calls : List Call) :
    (∀ v w, ((h.setVerbosity v).trace calls).map effect =
      ((h.setVerbosity w).trace calls).map effect) ∧
    (∀ v, ∀ o ∈ (h.setVerbosity v).trace calls, o.state.verbosity = v) ∧
    ((h.setVerbosity .off).trace calls).map Outcome.log =
      (((h.setVerbosity .verbose).trace calls).map fun o =>
        o.log.filter fun r => r.severity = .warn) ∧
    ((h.setVerbosity .info).trace calls).map Outcome.log =
      ((h.setVerbosity .verbose).trace calls).map fun o =>
        o.log.filter fun r => r.severity ≠ .debug := by
  have heffect : ∀ v, ((h.setVerbosity v).trace calls).map effect =
      ((h.setVerbosity .verbose).trace calls).map effect := by
    intro v
    rw [h.trace_muted calls v, List.map_map]
    rfl
  refine ⟨fun v w => (heffect v).trans (heffect w).symm, fun v o ho => ?_, ?_, ?_⟩
  · rw [h.trace_muted calls v] at ho
    obtain ⟨loud, _, rfl⟩ := List.mem_map.mp ho
    rfl
  · rw [h.trace_muted calls .off, List.map_map]
    exact List.map_congr_left fun o _ => Record.seen_off o.log
  · rw [h.trace_muted calls .info, List.map_map]
    exact List.map_congr_left fun o _ => Record.seen_info o.log

end Heap
end BlockHeap
