import BlockHeap.Proofs.Integrity
import BlockHeap.Proofs.Twins

/-!
# Indifference to foreign bytes

Two sessions run side by side: their heaps are made with the same configuration in segments that
start at the same address, and get the same calls. The bytes of the fresh segments may differ, and so
may the bytes that growing brings in and those that the clients write into their payloads. As long as
the two segments refuse the same requests, nothing else ever differs.
-/

namespace BlockHeap

variable {σ τ : Type} [Segment σ] [Segment τ]

/-- Two segments with their memories are fresh in the same way: they differ in no number that they
show, and both grant the first chunk or both refuse it. -/
structure Outset (config : Config) (s : σ) (m : Memory) (t : τ) (m' : Memory) : Prop where
  start : Segment.start t = Segment.start s
  committed : Segment.committed t = Segment.committed s
  pageSize : Segment.pageSize t = Segment.pageSize s
  first : (Segment.grow config.chunkSize t m').refusal.isNone =
    (Segment.grow config.chunkSize s m).refusal.isNone

/-- The heaps that two sessions lead to, with what each client holds then. The sessions made the same
calls, and their segments answered alike as far as both were asked; each client wrote what it liked
into its payloads. -/
inductive Parallel (config : Config) (s : σ) (m : Memory) (t : τ) (m' : Memory) :
    Heap σ → Heap τ → List Lease → List Lease → Prop where
  | create {h : Heap σ} {k : Heap τ} {log log' : List Record}
      (made : Heap.create s m config = .ok (h, log))
      (made' : Heap.create t m' config = .ok (k, log')) : Parallel config s m t m' h k [] []
  | serve {h : Heap σ} {k : Heap τ} {live live' : List Lease} {answer answer' : Option Nat} (c : Call)
      (before : Parallel config s m t m' h k live live') (valid : c.Valid live)
      (valid' : c.Valid live')
      (concur : Event.Concur (c.action h.arena).events (c.action k.arena).events)
      (served : (h.serve c).result = .ok answer) (served' : (k.serve c).result = .ok answer') :
      Parallel config s m t m' (h.serve c).state (k.serve c).state (c.settle live answer)
        (c.settle live' answer')
  | writeLeft {h : Heap σ} {k : Heap τ} {live live' : List Lease} {l : Lease} (a count : Nat)
      (f : Nat → UInt8) (before : Parallel config s m t m' h k live live') (held : l ∈ live)
      (low : l.payload ≤ a) (high : a + count ≤ l.payload + h.arena.usable l.payload) :
      Parallel config s m t m' { h with arena := h.arena.write a count f } k live live'
  | writeRight {h : Heap σ} {k : Heap τ} {live live' : List Lease} {l : Lease} (a count : Nat)
      (f : Nat → UInt8) (before : Parallel config s m t m' h k live live') (held : l ∈ live')
      (low : l.payload ≤ a) (high : a + count ≤ l.payload + k.arena.usable l.payload) :
      Parallel config s m t m' h { k with arena := k.arena.write a count f } live live'

variable {P : σ → Prop} {Q : τ → Prop} {config : Config} {s : σ} {m : Memory} {t : τ} {m' : Memory}
  {h : Heap σ} {k : Heap τ} {live live' : List Lease} {blocks : List Piece}

/-- Arenas that were made at the same outset are twins. -/
lemma Arena.create_twins {h : Arena σ} {k : Arena τ} {events events' : List Event}
    (hP : Segment.Exact P) (hQ : Segment.Exact Q) (hs : P s) (ht : Q t)
    (hout : Outset config s m t m') (hc : create s m config = .ok (h, events))
    (hc' : create t m' config = .ok (k, events')) :
    Twins P Q h k [⟨h.capacity, .free⟩] := by
  have hbreak : Segment.stop t = Segment.stop s := by
    unfold Segment.stop
    rw [hout.start, hout.committed]
  have hsound := (create_sound hP.loose hs hc).1
  have hsound' := (create_sound hQ.loose ht hc').1
  obtain ⟨s₁, _, m₁, _, start, stop, _, _, hgrow, hstart, hstop, _, rfl, _⟩ :=
    create_laid hP.loose hs hc
  obtain ⟨t₁, _, m₁', _, start', stop', _, _, hgrow', hstart', hstop', _, rfl, _⟩ :=
    create_laid hQ.loose ht hc'
  have hbase := hP.grow_start config.chunkSize m hs
  have hbase' := hQ.grow_start config.chunkSize m' ht
  have hreach := hP.grow_granted config.chunkSize m hs (by rw [hgrow])
  have hreach' := hQ.grow_granted config.chunkSize m' ht (by rw [hgrow'])
  rw [hgrow] at hbase hreach
  rw [hgrow'] at hbase' hreach'
  have hfirst : Segment.start t₁ = Segment.start s₁ := hbase'.trans (hout.start.trans hbase.symm)
  have hlast : Segment.stop t₁ = Segment.stop s₁ := by rw [hreach, hreach', hbreak]
  rw [hfirst, ← hstart] at hstart'
  rw [hlast, ← hstop] at hstop'
  subst hstart' hstop'
  exact ⟨hsound, hsound', rfl, rfl, rfl, rfl, rfl, rfl, hfirst, hlast⟩

/-- The client of one twin holds the same blocks of the other. -/
lemma Held.right {h : Arena σ} {k : Arena τ} (hh : Held P h live blocks)
    (ht : Arena.Twins P Q h k blocks) : Held Q k live blocks := by
  refine ⟨ht.right, ?_, hh.word_le⟩
  rw [ht.alike.start]
  exact hh.leases

/-- What both sessions have in common at every point. -/
lemma Parallel.twins (hP : Segment.Exact P) (hQ : Segment.Exact Q) (hs : P s) (ht : Q t)
    (hout : Outset config s m t m') (hr : Parallel config s m t m' h k live live') :
    live' = live ∧ ∃ blocks, Held P h.arena live blocks ∧ Arena.Twins P Q h.arena k.arena blocks := by
  induction hr with
  | create made made' =>
    obtain ⟨_, hmade⟩ := Heap.create_ok made
    obtain ⟨_, hmade'⟩ := Heap.create_ok made'
    have htwins := Arena.create_twins hP hQ hs ht hout hmade hmade'
    exact ⟨rfl, _, ⟨htwins.left, List.Perm.refl _, by simp⟩, htwins⟩
  | @serve h k live _ answer answer' c _ valid _ concur served served' ih =>
    obtain ⟨rfl, blocks, hh, htwins⟩ := ih
    obtain ⟨x, hx⟩ := (hh.coupled hP hQ htwins valid).paired concur
    obtain ⟨hresult, hstate⟩ := h.serve_eq c
    obtain ⟨hresult', hstate'⟩ := k.serve_eq c
    obtain rfl := Except.ok.inj (hx.left.symm.trans (hresult.symm.trans served))
    obtain rfl := Except.ok.inj (hx.right.symm.trans (hresult'.symm.trans served'))
    obtain ⟨blocks', hh'⟩ := (hh.served hP valid served).held
    obtain ⟨blocks'', htwins'⟩ := hx.related
    rw [hstate] at hh'
    obtain rfl := hh'.sound.unique htwins'.left
    rw [hstate, hstate']
    exact ⟨rfl, blocks', hh', htwins'⟩
  | writeLeft a count f _ held low high ih =>
    obtain ⟨rfl, blocks, hh, htwins⟩ := ih
    have hh' := hh.written held f low high
    exact ⟨rfl, blocks, hh', hh'.sound, htwins.right, htwins.alike.withMemory _ _⟩
  | writeRight a count f _ held low high ih =>
    obtain ⟨rfl, blocks, hh, htwins⟩ := ih
    have hright := (hh.right htwins).written held f low high
    exact ⟨rfl, blocks, hh, htwins.left, hright.sound, htwins.alike.withMemory _ _⟩

/-- Twins look the same to a check. -/
lemma Arena.Twins.check_eq {h : Arena σ} {k : Arena τ} (ht : Twins P Q h k blocks) :
    ∃ report, h.check = .ok report ∧ k.check = .ok report := by
  have ha := ht.alike
  have hreport : k.reportOf blocks = h.reportOf blocks := by
    unfold reportOf
    rw [ha.start, ha.stop, ha.placement, ha.base, ha.reach]
  refine ⟨h.reportOf blocks, ht.left.check_eq.1, ?_⟩
  rw [ht.right.check_eq.1, hreport]

/-- A heap is made in one segment if it is made in the other. -/
lemma Outset.made_iff (hP : Segment.Exact P) (hQ : Segment.Exact Q) (hs : P s) (ht : Q t)
    (hout : Outset config s m t m') :
    (∃ made, Heap.create s m config = .ok made) ↔ ∃ made, Heap.create t m' config = .ok made := by
  have hfirst : (Segment.grow config.chunkSize t m').refusal = none ↔
      (Segment.grow config.chunkSize s m).refusal = none := by
    rw [← Option.isNone_iff_eq_none, ← Option.isNone_iff_eq_none, hout.first]
  rw [Heap.create_made_iff, Heap.create_made_iff, Arena.create_made_iff m config hP hs,
    Arena.create_made_iff m' config hQ ht, hout.committed, hout.pageSize, hfirst]

/-- Over exact providers that refuse alike, a heap does not depend on bytes that are not its own. It is
made in one segment if it is made in the other. At every point of two sessions with the same calls,
what the clients hold, the bounds, the break and the cursor are the same, a check reports the same
blocks, and a further call is answered the same, after the same requests to the segment. -/
theorem Parallel.indifferent (hP : Segment.Exact P) (hQ : Segment.Exact Q) (hs : P s) (ht : Q t)
    (hout : Outset config s m t m') :
    ((∃ made, Heap.create s m config = .ok made) ↔ ∃ made, Heap.create t m' config = .ok made) ∧
    ∀ (h : Heap σ) (k : Heap τ) (live live' : List Lease),
      Parallel config s m t m' h k live live' →
        live' = live ∧ h.arena.Alike k.arena ∧
        Segment.committed k.arena.segment = Segment.committed h.arena.segment ∧
        (∃ report, h.check = .ok report ∧ k.check = .ok report) ∧
        ∀ c : Call, c.Valid live →
          Event.Concur (c.action h.arena).events (c.action k.arena).events →
          ∃ answer, (h.serve c).result = .ok answer ∧ (k.serve c).result = .ok answer ∧
            Event.requests (c.action h.arena).events = Event.requests (c.action k.arena).events := by
  refine ⟨hout.made_iff hP hQ hs ht, fun h k live live' hr => ?_⟩
  obtain ⟨hlive, blocks, hh, htwins⟩ := hr.twins hP hQ hs ht hout
  have hbase := htwins.alike.base
  have hreach := htwins.alike.reach
  unfold Segment.stop at hreach
  refine ⟨hlive, htwins.alike, by omega, htwins.check_eq, fun c hc hconcur => ?_⟩
  obtain ⟨answer, hx⟩ := (hh.coupled hP hQ htwins hc).paired hconcur
  exact ⟨answer, (h.serve_eq c).1.trans hx.left, (k.serve_eq c).1.trans hx.right, hx.requests⟩

/-- What the segment answers during some calls, call by call. -/
def Heap.heard (h : Heap σ) : List Call → List (List Bool)
  | [] => []
  | c :: calls => Event.answers (c.action h.arena).events :: (h.serve c).state.heard calls

lemma Parallel.play {calls : List Call} {h' : Heap σ} {k' : Heap τ} {last last' : List Lease}
    (hr : Parallel config s m t m' h k live live') (hp : h.play live calls = some (h', last))
    (hp' : k.play live' calls = some (k', last')) (hheard : h.heard calls = k.heard calls) :
    Parallel config s m t m' h' k' last last' := by
  induction calls generalizing h k live live' with
  | nil =>
    obtain ⟨rfl, rfl⟩ := Prod.mk.inj (Option.some.inj hp)
    obtain ⟨rfl, rfl⟩ := Prod.mk.inj (Option.some.inj hp')
    exact hr
  | cons c rest ih =>
    obtain ⟨hfirst, hlater⟩ := List.cons.inj hheard
    unfold Heap.play at hp hp'
    split at hp
    next hvalid =>
      split at hp
      next answer hanswer =>
        split at hp'
        next hvalid' =>
          split at hp'
          next answer' hanswer' =>
            have hconcur : Event.Concur (c.action h.arena).events (c.action k.arena).events :=
              Or.inl (hfirst ▸ List.prefix_rfl)
            exact ih (.serve c hr hvalid hvalid' hconcur hanswer hanswer') hp hp' hlater
          next => exact absurd hp' nofun
        next => exact absurd hp' nofun
      next => exact absurd hp nofun
    next => exact absurd hp nofun

/-- A session that makes these calls, with what its segment answered. -/
def Heap.listen (segment : σ) (memory : Memory) (config : Config) (calls : List Call) :
    Option ((Heap σ × List Lease) × List (List Bool)) :=
  match Heap.create segment memory config with
  | .ok (h, _) => (h.play [] calls).map fun last => (last, h.heard calls)
  | .error _ => none

lemma Parallel.of_listen {calls : List Call} {answers : List (List Bool)}
    (hl : Heap.listen s m config calls = some ((h, live), answers))
    (hr : Heap.listen t m' config calls = some ((k, live'), answers)) :
    Parallel config s m t m' h k live live' := by
  unfold Heap.listen at hl hr
  split at hl
  next made =>
    split at hr
    next made' =>
      obtain ⟨_, hp, hlast⟩ := Option.map_eq_some_iff.mp hl
      obtain ⟨_, hp', hlast'⟩ := Option.map_eq_some_iff.mp hr
      obtain ⟨rfl, hheard⟩ := Prod.mk.inj hlast
      obtain ⟨rfl, hheard'⟩ := Prod.mk.inj hlast'
      exact (Parallel.create made made').play hp hp' (hheard.trans hheard'.symm)
    next => exact absurd hr nofun
  next => exact absurd hl nofun

/-- Two scripts over different bytes, which refuse the second request to grow and the first one to
shrink for different reasons. In the end one of the clients writes, and both allocate once more. -/
theorem Parallel.indifferent_played : ∃ (h k : Heap Script) (answer : Option Nat),
    Parallel ⟨.nextFit, 1024, 1024, .off⟩
      ⟨0x100000, 65536, 0, 4096, [.grant, .deny], [.deny]⟩ (.blankOf 0xa5)
      ⟨0x100000, 65536, 0, 4096, [.grant, .unmapped], [.unmapped]⟩ (.blankOf 0)
      { h with arena := h.arena.write 0x100028 8 fun _ => 0xff } k [⟨0x100028, 100⟩]
      [⟨0x100028, 100⟩] ∧
    h.arena.memory.read 0x100300 = 0xa5 ∧ k.arena.memory.read 0x100300 = 0 ∧
    (∃ report, Heap.check { h with arena := h.arena.write 0x100028 8 fun _ => 0xff } = .ok report ∧
      k.check = .ok report) ∧
    (Heap.serve { h with arena := h.arena.write 0x100028 8 fun _ => 0xff } (.allocate 40)).result =
      .ok answer ∧
    (k.serve (.allocate 40)).result = .ok answer := by
  have hleft : (Heap.listen (⟨0x100000, 65536, 0, 4096, [.grant, .deny], [.deny]⟩ : Script)
      (.blankOf 0xa5) ⟨.nextFit, 1024, 1024, .off⟩
      [.allocate 100, .allocate 5000, .allocate 5000, .free (some 0x1000a8)]).map (fun s =>
        (s.1.2, s.2, s.1.1.arena.usable 0x100028, s.1.1.arena.memory.read 0x100300,
          Event.answers ((Call.allocate 40).action
            (s.1.1.arena.write 0x100028 8 fun _ => 0xff)).events)) =
      some ([⟨0x100028, 100⟩], [[], [false], [true], [false]], 112, 0xa5, []) := by
    decide +kernel
  have hright : (Heap.listen (⟨0x100000, 65536, 0, 4096, [.grant, .unmapped], [.unmapped]⟩ : Script)
      (.blankOf 0) ⟨.nextFit, 1024, 1024, .off⟩
      [.allocate 100, .allocate 5000, .allocate 5000, .free (some 0x1000a8)]).map (fun s =>
        (s.1.2, s.2, s.1.1.arena.memory.read 0x100300)) =
      some ([⟨0x100028, 100⟩], [[], [false], [true], [false]], 0) := by
    decide +kernel
  obtain ⟨⟨⟨h, live⟩, answers⟩, hl, hfacts⟩ := Option.map_eq_some_iff.mp hleft
  obtain ⟨rfl, hfacts⟩ := Prod.mk.inj hfacts
  obtain ⟨rfl, hfacts⟩ := Prod.mk.inj hfacts
  obtain ⟨husable, hfacts⟩ := Prod.mk.inj hfacts
  obtain ⟨hbyte, hsilent⟩ := Prod.mk.inj hfacts
  obtain ⟨⟨⟨k, live⟩, answers⟩, hr, hfacts⟩ := Option.map_eq_some_iff.mp hright
  obtain ⟨rfl, hfacts⟩ := Prod.mk.inj hfacts
  obtain ⟨rfl, hbyte'⟩ := Prod.mk.inj hfacts
  have hhonest : ∀ verdict : Verdict, verdict = .deny ∨ verdict = .unmapped →
      Script.Honest ⟨0x100000, 65536, 0, 4096, [.grant, verdict], [verdict]⟩ := by
    rintro verdict (rfl | rfl)
    · exact ⟨by decide, by decide, fun n hn => by simp at hn⟩
    · exact ⟨by decide, by decide, fun n hn => by simp at hn⟩
  have hparallel := (Parallel.of_listen hl hr).writeLeft 0x100028 8 (fun _ => 0xff)
    List.mem_cons_self (Nat.le_refl _) (by dsimp only at husable ⊢; rw [husable]; decide)
  have hout : Outset ⟨.nextFit, 1024, 1024, .off⟩
      (⟨0x100000, 65536, 0, 4096, [.grant, .deny], [.deny]⟩ : Script) (.blankOf 0xa5)
      (⟨0x100000, 65536, 0, 4096, [.grant, .unmapped], [.unmapped]⟩ : Script) (.blankOf 0) :=
    ⟨rfl, rfl, rfl, by decide +kernel⟩
  obtain ⟨_, hsame⟩ := Parallel.indifferent Script.exact_honest Script.exact_honest
    (hhonest .deny (Or.inl rfl)) (hhonest .unmapped (Or.inr rfl)) hout
  obtain ⟨_, _, _, hcheck, hserve⟩ := hsame _ _ _ _ hparallel
  obtain ⟨answer, hanswer, hanswer', _⟩ := hserve (.allocate 40) nofun
    (Or.inl (by dsimp only at hsilent ⊢; rw [hsilent]; exact List.nil_prefix))
  exact ⟨h, k, answer, hparallel, hbyte, hbyte', hcheck, hanswer, hanswer'⟩

end BlockHeap
