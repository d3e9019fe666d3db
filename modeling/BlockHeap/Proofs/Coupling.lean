import BlockHeap.Proofs.Built

/-!
# Coupled runs

`Coupled R m h m' k` compares a run of `m` from `h` with one of `m'` from `k`, over providers that may
differ. A run is told what its segment answers one request at a time, so the answers to both runs are
compared as beginnings of longer lists: as far as they are alike, both runs use the same answers up,
ask for the same, and end with the same result in arenas that are related by `R`. An action that never
asks is told nothing, and goes the same way whatever the answers are.
-/

namespace BlockHeap

namespace Event

/-- What the event tells about a request to the segment: whether it was granted. -/
def answer : Event → Option Bool
  | answered granted => some granted
  | _ => none

/-- The answers to the requests among events. -/
def answers (events : List Event) : List Bool :=
  events.filterMap answer

@[simp] lemma answers_nil : answers [] = [] := rfl

@[simp] lemma answers_append (xs ys : List Event) : answers (xs ++ ys) = answers xs ++ answers ys :=
  List.filterMap_append

/-- The event is no request to the segment and no answer of it. -/
structure Plain (e : Event) : Prop where
  unasked : requests [e] = []
  silent : e.answer = none

lemma answers_of_plain {events : List Event} (h : ∀ e ∈ events, Plain e) : answers events = [] :=
  List.filterMap_eq_nil_iff.mpr fun e he => (h e he).silent

lemma requests_of_plain {events : List Event} (h : ∀ e ∈ events, Plain e) :
    requests events = [] := by
  induction events with
  | nil => rfl
  | cons e events ih =>
    have hfirst := (h e List.mem_cons_self).unasked
    have hrest := ih fun e he => h e (List.mem_cons_of_mem _ he)
    rw [← List.singleton_append, requests_append, hfirst, hrest, List.append_nil]

/-- As far as both runs with these events were asked for an answer, it was the same. -/
def Concur (events events' : List Event) : Prop :=
  answers events <+: answers events' ∨ answers events' <+: answers events

end Event

namespace Action

/-- What follows a request tells once how it went. -/
lemma answers_echo {σ : Type} (move : Segment.Move σ) :
    Event.answers (echo move) = [move.refusal.isNone] := by
  unfold echo
  rw [Event.answers_append, Event.answers, List.filterMap_map]
  simp [Function.comp_def, Event.answer, Event.answers]

variable {σ τ α β : Type} {R S : α → Arena σ → Arena τ → Prop} {m : Action σ α} {m' : Action τ α}
  {f : α → Action σ β} {f' : α → Action τ β} {h h' : Arena σ} {k k' : Arena τ} {x : α}

/-- Both replies have the result `x`, after the same requests, and leave related arenas. -/
structure Paired (R : α → Arena σ → Arena τ → Prop) (r : Reply σ α) (r' : Reply τ α) (x : α) :
    Prop where
  left : r.result = .ok x
  right : r'.result = .ok x
  requests : Event.requests r.events = Event.requests r'.events
  related : R x r.arena r'.arena

/-- If the answers to both runs are alike, as far as each run asks, then both use the same answers up
and reply alike. -/
def Coupled (R : α → Arena σ → Arena τ → Prop) (m : Action σ α) (h : Arena σ) (m' : Action τ α)
    (k : Arena τ) : Prop :=
  ∀ xs ys, Event.answers (m h).events ++ xs = Event.answers (m' k).events ++ ys →
    xs = ys ∧ ∃ x, Paired R (m h) (m' k) x

/-- Runs that are coupled and answered alike reply alike. -/
lemma Coupled.paired (hc : Coupled R m h m' k) (halike : Event.Concur (m h).events (m' k).events) :
    ∃ x, Paired R (m h) (m' k) x := by
  rcases halike with ⟨rest, hrest⟩ | ⟨rest, hrest⟩
  · exact (hc rest [] (by rw [hrest, List.append_nil])).2
  · exact (hc [] rest (by rw [hrest, List.append_nil])).2

/-- What follows a step comes after its events. -/
lemma events_bind (m : Action σ α) (f : α → Action σ β) (h : Arena σ) :
    ∃ rest, ((m >>= f) h).events = (m h).events ++ rest := by
  rw [bind_apply]
  rcases m h with ⟨fault | x, h', events⟩
  · exact ⟨[], (List.append_nil _).symm⟩
  · exact ⟨_, rfl⟩

lemma mem_events_bind {e : Event} (he : e ∈ ((m >>= f) h).events) :
    e ∈ (m h).events ∨ ∃ x h', e ∈ (f x h').events := by
  rw [bind_apply] at he
  generalize m h = reply at he ⊢
  obtain ⟨fault | x, h', events⟩ := reply
  · exact Or.inl he
  · exact (List.mem_append.mp he).imp_right fun hlast => ⟨x, h', hlast⟩

lemma mem_events_diag {e : Event} {level : Verbosity} {notice : Action σ Notice}
    (he : e ∈ (diag level notice h).events) : e ∈ (notice h).events ∨ ∃ r, e = .logged r := by
  unfold diag at he
  rw [get_bind] at he
  split at he
  next =>
    cases hlevel : level.severity? with
    | none =>
      rw [hlevel] at he
      exact absurd he List.not_mem_nil
    | some severity =>
      rw [hlevel] at he
      refine (mem_events_bind he).imp_right ?_
      rintro ⟨n, h', hlogged⟩
      exact ⟨_, List.mem_singleton.mp hlogged⟩
  next => exact absurd he List.not_mem_nil

/-- Who never asks is told nothing. -/
theorem Built.plain [Segment σ] (hb : Built False m) (h : Arena σ) :
    ∀ e ∈ (m h).events, e.Plain := by
  have hstray : ∀ a, Event.Plain (.stray a) := fun _ => ⟨rfl, rfl⟩
  have htouch : ∀ h : Arena σ, ∀ a, ∀ e ∈ strays h a, e.Plain := by
    intro h a e he
    unfold strays at he
    split at he
    next => exact absurd he List.not_mem_nil
    next => exact List.mem_singleton.mp he ▸ hstray a
  induction hb generalizing h with
  | pure | fault | modify => exact fun e he => absurd he List.not_mem_nil
  | bind _ _ ihm ihf =>
    intro e he
    rcases mem_events_bind he with hfirst | ⟨x, h', hlast⟩
    · exact ihm h e hfirst
    · exact ihf x h' e hlast
  | @words _ _ value _ _ ih =>
    cases value with
    | error => exact fun e he => absurd he List.not_mem_nil
    | ok x => exact ih x rfl h
  | look _ _ ih => exact ih h h
  | warn => exact fun e he => List.mem_singleton.mp he ▸ ⟨rfl, rfl⟩
  | diag level gentle =>
    intro e he
    rcases mem_events_diag he with hread | ⟨r, rfl⟩
    · obtain ⟨a, rfl⟩ := gentle.strays h e hread
      exact hstray a
    · exact ⟨rfl, rfl⟩
  | load a | store a => exact htouch h a
  | grow asks | shrink asks => exact asks.elim

namespace Coupled

lemma mono (hm : Coupled R m h m' k) (hle : ∀ x h' k', R x h' k' → S x h' k') :
    Coupled S m h m' k := by
  intro xs ys hanswers
  obtain ⟨hrest, x, hx⟩ := hm xs ys hanswers
  exact ⟨hrest, x, hx.left, hx.right, hx.requests, hle _ _ _ hx.related⟩

lemma pure (x : α) (hr : R x h k) : Coupled R (Pure.pure x) h (Pure.pure x) k :=
  fun _ _ hanswers => ⟨hanswers, x, rfl, rfl, rfl, hr⟩

/-- Neither run can fault before the other: the answers to a run that goes on are some of those that
follow. -/
theorem bind {T : β → Arena σ → Arena τ → Prop} (hm : Coupled R m h m' k)
    (hf : ∀ x h' k', R x h' k' → Coupled T (f x) h' (f' x) k') :
    Coupled T (m >>= f) h (m' >>= f') k := by
  intro xs ys hanswers
  obtain ⟨rest, hleft⟩ := events_bind m f h
  obtain ⟨rest', hright⟩ := events_bind m' f' k
  rw [hleft, hright, Event.answers_append, Event.answers_append, List.append_assoc,
    List.append_assoc] at hanswers
  obtain ⟨hrest, x, hx⟩ := hm _ _ hanswers
  have hrun : m h = ⟨.ok x, (m h).arena, (m h).events⟩ := by rw [← hx.left]
  have hrun' : m' k = ⟨.ok x, (m' k).arena, (m' k).events⟩ := by rw [← hx.right]
  have hbind := bind_of_ok (f := f) hrun
  have hbind' := bind_of_ok (f := f') hrun'
  rw [hbind] at hleft
  rw [hbind'] at hright
  obtain rfl := List.append_cancel_left hleft
  obtain rfl := List.append_cancel_left hright
  obtain ⟨hend, y, hy⟩ := hf x _ _ hx.related xs ys hrest
  rw [hbind, hbind']
  refine ⟨hend, y, hy.left, hy.right, ?_, hy.related⟩
  simp only [Event.requests_append, hx.requests, hy.requests]

end Coupled

variable [Segment σ] [Segment τ]

/-- A run that asks for nothing and is told nothing. -/
structure Quiet (m : Action σ α) (h : Arena σ) (x : α) (h' : Arena σ) : Prop where
  runs : Runs m h x h' []
  silent : Event.answers (m h).events = []

lemma Runs.quiet (hm : Runs m h x h' []) (hb : Built False m) : Quiet m h x h' :=
  ⟨hm, Event.answers_of_plain (hb.plain h)⟩

lemma Runs.answers_bind {asked : List Event} (hm : Runs m h x h' asked) :
    Event.answers ((m >>= f) h).events =
      Event.answers (m h).events ++ Event.answers (f x h').events := by
  have hrun : m h = ⟨.ok x, h', (m h).events⟩ := by rw [← hm.result, ← hm.arena]
  rw [bind_of_ok hrun, Event.answers_append]

lemma Paired.of_runs {asked : List Event} (hm : Runs m h x h' asked) (hm' : Runs m' k x k' asked)
    (hr : R x h' k') : Paired R (m h) (m' k) x := by
  refine ⟨hm.result, hm'.result, hm.requests.trans hm'.requests.symm, ?_⟩
  rwa [hm.arena, hm'.arena]

namespace Coupled

lemma quiet (hm : Quiet m h x h') (hm' : Quiet m' k x k') (hr : R x h' k') :
    Coupled R m h m' k := by
  intro xs ys hanswers
  rw [hm.silent, hm'.silent] at hanswers
  exact ⟨hanswers, x, .of_runs hm.runs hm'.runs hr⟩

/-- A quiet step before the runs that are compared. -/
lemma after {T : β → Arena σ → Arena τ → Prop} (hm : Quiet m h x h') (hm' : Quiet m' k x k')
    (hf : Coupled T (f x) h' (f' x) k') : Coupled T (m >>= f) h (m' >>= f') k := by
  refine (quiet (R := fun y a b => y = x ∧ a = h' ∧ b = k') hm hm' ⟨rfl, rfl, rfl⟩).bind ?_
  rintro _ _ _ ⟨rfl, rfl, rfl⟩
  exact hf

lemma noted {T : β → Arena σ → Arena τ → Prop} {f : Unit → Action σ β} {f' : Unit → Action τ β}
    (level : Verbosity) (n : Notice) (hf : Coupled T (f ()) h (f' ()) k) :
    Coupled T (diag level (Pure.pure n) >>= f) h (diag level (Pure.pure n) >>= f') k :=
  .after ((Runs.note level n h).quiet (.note level n))
    ((Runs.note level n k).quiet (.note level n)) hf

lemma lifted {T : β → Arena σ → Arena τ → Prop} {e : Except Fault α} (he : e = .ok x)
    (hf : Coupled T (f x) h (f' x) k) : Coupled T (liftM e >>= f) h (liftM e >>= f') k :=
  .after ((Runs.lift he h).quiet (.lift e)) ((Runs.lift he k).quiet (.lift e)) hf

lemma written {T : β → Arena σ → Arena τ → Prop} {f : Unit → Action σ β} {f' : Unit → Action τ β}
    (g : Memory → Memory)
    (hf : Coupled T (f ()) (h.withMemory (g h.memory)) (f' ()) (k.withMemory (g k.memory))) :
    Coupled T (modify (fun h => { h with memory := g h.memory }) >>= f) h
      (modify (fun k => { k with memory := g k.memory }) >>= f') k :=
  .after ((Runs.modify rfl rfl).quiet (.write g)) ((Runs.modify rfl rfl).quiet (.write g)) hf

omit [Segment σ] [Segment τ] in
/-- Runs with a single request go as its answer has it. -/
lemma heard {b b' : Bool} (hm : Event.answers (m h).events = [b])
    (hm' : Event.answers (m' k).events = [b']) (hr : b = b' → ∃ x, Paired R (m h) (m' k) x) :
    Coupled R m h m' k := by
  intro xs ys hanswers
  rw [hm, hm'] at hanswers
  obtain ⟨hsame, hrest⟩ := List.cons.inj hanswers
  exact ⟨hrest, hr hsame⟩

omit [Segment τ] in
/-- What is known of one of the runs holds of it in comparison as well. -/
lemma along {asked : List Event} (hc : Coupled R m h m' k) (hm : Runs m h x h' asked) :
    Coupled (fun y a b => y = x ∧ a = h' ∧ R y a b) m h m' k := by
  intro xs ys hanswers
  obtain ⟨hrest, y, hy⟩ := hc xs ys hanswers
  have hresult : y = x := Except.ok.inj (hy.left.symm.trans hm.result)
  exact ⟨hrest, y, hy.left, hy.right, hy.requests, hresult, hm.arena, hy.related⟩

end Coupled
end Action

end BlockHeap
