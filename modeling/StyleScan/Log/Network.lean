import StyleScan.Log.Logger

/-! # Networks of loggers

A logger can be a sink of another one, and then applies its own threshold again.  In a network,
loggers and ring buffers are numbered, a sink may be shared or added more than once, and no chain of
loggers leads back to where it began.  Delivery follows every chain from the logger that is called,
depth first, and reaches a ring once for every way that leads to it. -/

namespace StyleScan.Log

/-- A sink in a network. -/
inductive Link where
  | ring (index : Nat)
  | logger (index : Nat)
deriving Repr, DecidableEq, Inhabited

/-- Logger `j` is a sink of logger `i`. -/
def Chained (loggers : Array (Logger Link)) (j i : Nat) : Prop :=
  ∃ l, loggers[i]? = some l ∧ Link.logger j ∈ l.sinks

/-- Where one logger is changed, a chain is an old one or goes through the changed logger. -/
theorem Chained.of_modify {loggers : Array (Logger Link)} {f : Logger Link → Logger Link}
    {i j k : Nat} (h : Chained (loggers.modify i f) j k) :
    Chained loggers j k ∨ k = i ∧ ∃ l, loggers[i]? = some l ∧ Link.logger j ∈ (f l).sinks := by
  obtain ⟨l, hl, hmem⟩ := h
  rw [Array.getElem?_modify] at hl
  split at hl
  next hk =>
    obtain ⟨m, hm, rfl⟩ := Option.map_eq_some_iff.1 hl
    exact .inr ⟨hk.symm, m, hk ▸ hm, hmem⟩
  next => exact .inl ⟨l, hl, hmem⟩

/-- Loggers and rings, and the links between them. -/
structure Network where
  loggers : Array (Logger Link)
  rings : Array Ring
  /-- Every chain of loggers comes to an end. -/
  acyclic : WellFounded (Chained loggers)

namespace Network

/-- Loggers without sinks beside empty rings. -/
def new (loggers : List (Logger Link)) (capacities : List Nat) : Network where
  loggers := (loggers.map fun l => Logger.new l.level).toArray
  rings := (capacities.map Ring.new).toArray
  acyclic := by
    refine ⟨fun i => ⟨i, fun j ⟨l, hl, hmem⟩ => ?_⟩⟩
    simp only [List.getElem?_toArray, List.getElem?_map, Option.map_eq_some_iff] at hl
    obtain ⟨m, -, rfl⟩ := hl
    simp [Logger.new] at hmem

/-- Logger `i` and the loggers that chains from it lead to. -/
def chainedFrom (n : Network) (i : Nat) : List Nat :=
  i :: match h : n.loggers[i]? with
    | none => []
    | some l =>
      l.sinks.attach.flatMap fun
        | ⟨.ring _, _⟩ => []
        | ⟨.logger j, hmem⟩ =>
          have : Chained n.loggers j i := ⟨l, h, hmem⟩
          n.chainedFrom j
termination_by n.acyclic.wrap i

theorem self_mem_chainedFrom (n : Network) (i : Nat) : i ∈ n.chainedFrom i := by
  rw [chainedFrom]
  exact List.mem_cons_self

theorem chainedFrom_subset (n : Network) {i j : Nat} (h : Chained n.loggers j i) :
    n.chainedFrom j ⊆ n.chainedFrom i := by
  intro k hk
  obtain ⟨l, hl, hmem⟩ := h
  rw [chainedFrom]
  refine List.mem_cons_of_mem i ?_
  split
  next hnone => cases hnone.symm.trans hl
  next m hm =>
    cases hm.symm.trans hl
    exact List.mem_flatMap.2 ⟨⟨_, hmem⟩, List.mem_attach _ _, hk⟩

/-- A new link closes no circle unless it leads back to where it begins. -/
theorem acyclic_addSink (n : Network) (i : Nat) (link : Link)
    (apart : ∀ j, link = .logger j → i ∉ n.chainedFrom j) :
    WellFounded (Chained (n.loggers.modify i (·.addSink link))) := by
  have hcases {j k : Nat} (h : Chained (n.loggers.modify i (·.addSink link)) j k) :
      Chained n.loggers j k ∨ k = i ∧ link = .logger j := by
    rcases h.of_modify with h | ⟨rfl, l, hl, hmem⟩
    · exact .inl h
    · rcases List.mem_append.1 hmem with hmem | hmem
      · exact .inl ⟨l, hl, hmem⟩
      · exact .inr ⟨rfl, (List.mem_singleton.1 hmem).symm⟩
  -- Chains that do not pass `i` are as before.
  have haway (k : Nat) (hk : i ∉ n.chainedFrom k) :
      Acc (Chained (n.loggers.modify i (·.addSink link))) k := by
    induction k using n.acyclic.induction with
    | _ k ih =>
      refine ⟨k, fun j h => ?_⟩
      rcases hcases h with h | ⟨rfl, -⟩
      · exact ih j h fun hi => hk (n.chainedFrom_subset h hi)
      · exact absurd (n.self_mem_chainedFrom k) hk
  refine ⟨fun k => ?_⟩
  induction k using n.acyclic.induction with
  | _ k ih =>
    refine ⟨k, fun j h => ?_⟩
    rcases hcases h with h | ⟨rfl, hlink⟩
    · exact ih j h
    · exact haway j (apart j hlink)

/-- Adds a sink to logger `i`.  A logger as a sink must not lead back to `i`. -/
def addLink (n : Network) (i : Nat) (link : Link)
    (apart : ∀ j, link = .logger j → i ∉ n.chainedFrom j) : Network where
  loggers := n.loggers.modify i (·.addSink link)
  rings := n.rings
  acyclic := n.acyclic_addSink i link apart

/-- Adds ring `r` as a sink of logger `i`. -/
def addRing (n : Network) (i r : Nat) : Network :=
  n.addLink i (.ring r) (by simp)

/-- Adds logger `j` as a sink of logger `i`, unless that would close a circle. -/
def chain (n : Network) (i j : Nat) : Network :=
  if h : i ∈ n.chainedFrom j then n else n.addLink i (.logger j) (by simpa using h)

/-- Changes the threshold of logger `i`. -/
def setLevel (n : Network) (i : Nat) (level : Level) : Network where
  loggers := n.loggers.modify i (·.setLevel level)
  rings := n.rings
  acyclic := by
    refine Subrelation.wf ?_ n.acyclic
    intro j k h
    rcases h.of_modify with h | ⟨rfl, l, hl, hmem⟩
    · exact h
    · exact ⟨l, hl, hmem⟩

/-- The rings that a record of the given level reaches from logger `i`, in the order of
delivery. -/
def reached (n : Network) (level : Level) (i : Nat) : List Nat :=
  match h : n.loggers[i]? with
  | none => []
  | some l =>
    if l.isEnabled level then
      l.sinks.attach.flatMap fun
        | ⟨.ring r, _⟩ => [r]
        | ⟨.logger j, hmem⟩ =>
          have : Chained n.loggers j i := ⟨l, h, hmem⟩
          n.reached level j
    else []
termination_by n.acyclic.wrap i

/-- Logs an entry through logger `i`.  Every logger on the way makes a record of its own, so that
the copies may bear different times; `time m` is the time of the copy that is delivered after `m`
others. -/
def logTimed (n : Network) (i : Nat) (e : Entry) (time : Nat → Nat) : Network :=
  { n with
    rings := (n.reached e.level i).zipIdx.foldl
      (fun rings (k, m) => rings.modify k (·.write (e.stamp (time m)))) n.rings }

/-- Logs a record through logger `i`, at the same time throughout. -/
def log (n : Network) (i : Nat) (r : Record) : Network :=
  n.logTimed i r.toEntry fun _ => r.timestamp

end Network

end StyleScan.Log
