import StyleScan.Log.Setup
import StyleScan.Proofs.Retention

/-! # Setting up with files that cannot be opened

Whether a file can be opened is given for each path.  A strict setup succeeds if every file can be
opened, and then every output is a sink; otherwise it fails with the first that cannot.  A lenient
setup makes the same logger as a strict one that is given only the outputs that can be opened, and
each of the others is warned about once in the sinks that come before it (`init_of_openings`). -/

namespace StyleScan.Log

namespace Output

/-- Why an output cannot be opened, if it cannot. -/
def failure? (opens : String → Except SystemError Unit) : Output → Option SystemError
  | .file path =>
    match opens path with
    | .ok () => none
    | .error e => some e
  | .standardOutput | .standardError | .ring _ => none

/-- Whether an output can be opened. -/
def canOpen (opens : String → Except SystemError Unit) (o : Output) : Bool :=
  (o.failure? opens).isNone

/-- The room of a ring buffer. -/
def capacity? : Output → Option Nat
  | .ring capacity => some capacity
  | .standardOutput | .standardError | .file _ => none

/-- The sink of an output that comes after `k` ring buffers. -/
def sink (k : Nat) : Output → Sink
  | .standardOutput => .standardOutput
  | .standardError => .standardError
  | .file path => .file path
  | .ring _ => .ring k

end Output

/-- The number of ring buffers among outputs. -/
def ringCount (outputs : List Output) : Nat :=
  (outputs.filterMap Output.capacity?).length

/-- The sinks of outputs that come after `k` ring buffers: one for each, in order, ring buffers by
their numbers. -/
def sinksFrom (k : Nat) : List Output → List Sink
  | [] => []
  | o :: outputs => o.sink k :: sinksFrom (k + ringCount [o]) outputs

/-- The sinks of outputs. -/
def sinksOf (outputs : List Output) : List Sink :=
  sinksFrom 0 outputs

theorem ringCount_append (os ps : List Output) :
    ringCount (os ++ ps) = ringCount os + ringCount ps := by
  simp [ringCount]

theorem sinksFrom_append (k : Nat) (os ps : List Output) :
    sinksFrom k (os ++ ps) = sinksFrom k os ++ sinksFrom (k + ringCount os) ps := by
  induction os generalizing k with
  | nil => rfl
  | cons o os ih =>
    have hcount : ringCount (o :: os) = ringCount [o] + ringCount os := ringCount_append [o] os
    rw [List.cons_append, sinksFrom, ih, sinksFrom, List.cons_append, hcount, Nat.add_assoc]

/-- Every ring buffer is the sink of one output. -/
theorem count_ring_sinksFrom (k j : Nat) (os : List Output) :
    (sinksFrom k os).count (.ring j) = if k ≤ j ∧ j < k + ringCount os then 1 else 0 := by
  induction os generalizing k with
  | nil =>
    have hnone : ¬ (k ≤ j ∧ j < k + ringCount []) := by
      simp only [ringCount, List.filterMap_nil, List.length_nil]
      omega
    rw [if_neg hnone]
    rfl
  | cons o os ih =>
    have hcount : ringCount (o :: os) = ringCount [o] + ringCount os := ringCount_append [o] os
    have hsink : o.sink k = .ring j ∧ ringCount [o] = 1 ∧ k = j ∨
        o.sink k ≠ .ring j ∧ (ringCount [o] = 1 ∧ k ≠ j ∨ ringCount [o] = 0) := by
      cases o with
      | ring capacity =>
        have hone : ringCount [.ring capacity] = 1 := rfl
        by_cases h : k = j <;> simp [Output.sink, hone, h]
      | _ => exact .inr ⟨Sink.noConfusion, .inr rfl⟩
    rw [sinksFrom, List.count_cons, ih, hcount]
    simp only [beq_iff_eq]
    rcases hsink with ⟨hs, h⟩ | ⟨hs, h⟩
    · rw [if_pos hs]
      split <;> split <;> omega
    · rw [if_neg hs]
      split <;> split <;> omega

namespace Hub

/-- Deliveries reach the rings among the sinks, in their order, and are kept. -/
theorem foldl_deliver (hub : Hub) (ds : List (Sink × Record)) :
    (ds.foldl deliver hub).logger = hub.logger ∧
      (ds.foldl deliver hub).delivered = hub.delivered ++ ds.toArray ∧
      ∀ k : Nat, (ds.foldl deliver hub).rings[k]? = hub.rings[k]?.map fun ring =>
        ring.performAll ((ds.filter fun d => d.1 = .ring k).map fun d => .write d.2) := by
  induction ds generalizing hub with
  | nil => simp [Ring.performAll]
  | cons d ds ih =>
    obtain ⟨s, r⟩ := d
    obtain ⟨hlogger, hdelivered, hrings⟩ := ih (hub.deliver (s, r))
    refine ⟨?_, ?_, fun k => ?_⟩
    · rw [List.foldl_cons, hlogger]
      cases s <;> rfl
    · rw [List.foldl_cons, hdelivered]
      cases s <;> simp [deliver]
    · rw [List.foldl_cons, hrings]
      cases s with
      | ring j =>
        by_cases h : j = k
        · simp [deliver, h, Array.getElem?_modify, Ring.performAll, Ring.perform, Function.comp_def]
        · simp [deliver, h, Array.getElem?_modify]
      | _ => simp [deliver]

/-- The hub of outputs that can all be opened. -/
def of (level : Level) (outputs : List Output) : Hub :=
  ⟨⟨level, sinksOf outputs⟩, ((outputs.filterMap Output.capacity?).map Ring.new).toArray, #[]⟩

/-- The hub with one more output. -/
def add (hub : Hub) (o : Output) : Hub :=
  { hub with
    logger := hub.logger.addSink (o.sink hub.rings.size)
    rings := hub.rings ++ (o.capacity?.map Ring.new).toArray }

theorem size_rings_of (level : Level) (outputs : List Output) :
    (of level outputs).rings.size = ringCount outputs := by
  simp [of, ringCount]

theorem of_concat (level : Level) (os : List Output) (o : Output) :
    of level (os ++ [o]) = (of level os).add o := by
  have hsinks : sinksOf (os ++ [o]) = sinksOf os ++ [o.sink (of level os).rings.size] := by
    rw [size_rings_of, sinksOf, sinksFrom_append, Nat.zero_add]
    rfl
  have hrings : (of level (os ++ [o])).rings =
      (of level os).rings ++ (o.capacity?.map Ring.new).toArray := by
    cases o <;> simp [of, Output.capacity?]
  rw [add, ← hrings, Logger.addSink]
  simp only [of] at hsinks ⊢
  rw [hsinks]

end Hub

namespace Setup

variable (opens : String → Except SystemError Unit)

/-- An output is attached if it can be opened. -/
theorem attach_eq (hub : Hub) (o : Output) :
    attach (m := Id) opens hub o =
      match o.failure? opens with
      | none => .ok (hub.add o)
      | some e => .error e := by
  cases o with
  | file path =>
    simp only [attach, Output.failure?]
    change (match opens path with | .ok () => _ | .error e => _) = _
    cases opens path with
    | ok u => simp [Hub.add, Output.capacity?, Output.sink]; rfl
    | error e => rfl
  | ring capacity => simp [attach, Output.failure?, Hub.add, Output.capacity?, Output.sink]; rfl
  | _ => simp [attach, Output.failure?, Hub.add, Output.capacity?, Output.sink]; rfl

/-- A strict setup attaches all outputs or fails with the first that cannot be opened. -/
theorem attachAll_eq (hub : Hub) (os : List Output) :
    attachAll (m := Id) opens hub os =
      match os.findSome? (Output.failure? opens) with
      | none => .ok (os.foldl Hub.add hub)
      | some e => .error e := by
  induction os generalizing hub with
  | nil => rfl
  | cons o os ih =>
    change (match attach (m := Id) opens hub o with
      | .ok hub => attachAll (m := Id) opens hub os
      | .error e => .error e) = _
    rw [attach_eq, List.findSome?_cons]
    cases o.failure? opens with
    | none => exact ih (hub.add o)
    | some e => rfl

theorem foldl_add (level : Level) (os : List Output) :
    os.foldl Hub.add (.new level) = .of level os := by
  induction os using List.reverseRecOn with
  | nil => rfl
  | append_singleton os o ih => rw [List.foldl_append, ih, Hub.of_concat]; rfl

/-- What a strict setup makes. -/
theorem tryInit_eq (s : Setup) :
    s.tryInit (m := Id) opens =
      match s.outputs.findSome? (Output.failure? opens) with
      | none => .ok (.of s.level s.outputs)
      | some e => .error e := by
  rw [tryInit, attachAll_eq, foldl_add]

variable (now : Nat)

/-- The warning about an output that is left out, as a record. -/
def warning (e : SystemError) : Record :=
  (skipped e).stamp now

/-- A lenient setup goes on to the next output. -/
def addIfOpen (hub : Hub) (o : Output) : Hub :=
  match o.failure? opens with
  | none => hub.add o
  | some e => hub.log (warning now e)

theorem attachSome_eq (hub : Hub) (os : List Output) :
    attachSome (m := Id) opens now hub os = os.foldl (addIfOpen opens now) hub := by
  induction os generalizing hub with
  | nil => rfl
  | cons o os ih =>
    change (match attach (m := Id) opens hub o with
      | .ok hub => attachSome (m := Id) opens now hub os
      | .error e => attachSome (m := Id) opens now (hub.log (warning now e)) os) = _
    rw [attach_eq, List.foldl_cons, addIfOpen]
    cases o.failure? opens with
    | none => exact ih (hub.add o)
    | some e => exact ih (hub.log (warning now e))

/-- The outputs that cannot be opened, each as the outputs before it and the reason. -/
def skipsFrom (before : List Output) : List Output → List (List Output × SystemError)
  | [] => []
  | o :: os => ((o.failure? opens).map (before, ·)).toList ++ skipsFrom (before ++ [o]) os

theorem skipsFrom_concat (before os : List Output) (o : Output) :
    skipsFrom opens before (os ++ [o]) =
      skipsFrom opens before os ++ ((o.failure? opens).map (before ++ os, ·)).toList := by
  induction os generalizing before with
  | nil => simp [skipsFrom]
  | cons p os ih => simp [skipsFrom, ih]

/-- The warnings about outputs that cannot be opened, as far as they pass the threshold. -/
def warnings (level : Level) (os : List Output) : List Record :=
  if level ≤ .warn then (os.filterMap (Output.failure? opens)).map (warning now) else []

/-- What is delivered about outputs that cannot be opened: each warning to the sinks of the outputs
before it. -/
def warned (level : Level) (os : List Output) : List (Sink × Record) :=
  if level ≤ .warn then
    (skipsFrom opens [] os).flatMap fun skip =>
      (sinksOf (skip.1.filter (Output.canOpen opens))).map (·, warning now skip.2)
  else []

end Setup

namespace Output

variable (opens : String → Except SystemError Unit)

theorem canOpen_iff (o : Output) :
    o.canOpen opens ↔ ∀ path, o = .file path → opens path = .ok () := by
  cases o with
  | file path =>
    cases h : opens path <;> simp [canOpen, failure?, h]
  | _ => simp [canOpen, failure?]

/-- Ring buffers can be opened. -/
theorem ringCount_filter_canOpen (os : List Output) :
    ringCount (os.filter (canOpen opens)) = ringCount os := by
  rw [ringCount, List.filterMap_filter, ringCount]
  congr 2
  funext o
  cases o with
  | ring capacity => rfl
  | _ => exact ite_self none

end Output

namespace Hub

variable {hub : Hub}

/-- The deliveries of a record: one to each sink, if it passes. -/
theorem log_eq (r : Record) (hub : Hub) (os : List Output) (hsinks : hub.logger.sinks = sinksOf os)
    (hsize : hub.rings.size = ringCount os) :
    (hub.log r).logger = hub.logger ∧
      (hub.log r).delivered = hub.delivered ++ (hub.logger.deliveries r).toArray ∧
      ∀ k : Nat, (hub.log r).rings[k]? = hub.rings[k]?.map fun ring =>
        ring.performAll (if hub.logger.isEnabled r.level then [.write r] else []) := by
  obtain ⟨hlogger, hdelivered, hrings⟩ := hub.foldl_deliver (hub.logger.deliveries r)
  refine ⟨hlogger, hdelivered, fun k => (hrings k).trans ?_⟩
  by_cases hk : k < hub.rings.size
  · have hone : (sinksOf os).filter (fun s => s = .ring k) = [.ring k] := by
      rw [List.filter_eq, sinksOf, count_ring_sinksFrom, if_pos (by omega)]
      rfl
    congr 1
    funext ring
    congr 1
    unfold Logger.deliveries Logger.receivers
    split
    · rw [hsinks, List.filter_map, List.map_map]
      simp only [Function.comp_def]
      rw [hone]
      rfl
    · rfl
  · rw [Array.getElem?_eq_none (by omega)]
    rfl

end Hub

namespace Setup

variable (opens : String → Except SystemError Unit) (now : Nat) (level : Level)

/-- The hub is what a lenient setup makes of the outputs. -/
structure Made (os : List Output) (hub : Hub) : Prop where
  logger_eq : hub.logger = ⟨level, sinksOf (os.filter (Output.canOpen opens))⟩
  size_eq : hub.rings.size = ringCount os
  delivered_eq : hub.delivered.toList = warned opens now level os
  /-- A ring gets the warnings about the outputs after it. -/
  rings_eq : ∀ before capacity after, os = before ++ .ring capacity :: after →
    hub.rings[ringCount before]? =
      some ((Ring.new capacity).performAll ((warnings opens now level after).map .write))

variable {opens now level} {os : List Output} {hub : Hub} {o : Output}

theorem made_new : Made opens now level [] (.new level) := by
  refine ⟨rfl, rfl, ?_, ?_⟩
  · simp [Hub.new, warned, skipsFrom]
  · intro before capacity after h
    simp at h

/-- The outputs around a ring buffer, of which the last may be the one that comes last. -/
theorem cases_concat_eq {os before after : List Output} {o : Output} {capacity : Nat}
    (h : os ++ [o] = before ++ .ring capacity :: after) :
    os = before ∧ o = .ring capacity ∧ after = [] ∨
      ∃ after', os = before ++ .ring capacity :: after' ∧ after = after' ++ [o] := by
  rcases List.eq_nil_or_concat' after with rfl | ⟨after', p, rfl⟩
  · obtain ⟨rfl, hlast⟩ := List.append_inj' h rfl
    exact .inl ⟨rfl, (List.cons.inj hlast).1, rfl⟩
  · rw [← List.cons_append, ← List.append_assoc] at h
    obtain ⟨rfl, hlast⟩ := List.append_inj' h rfl
    exact .inr ⟨after', rfl, by rw [(List.cons.inj hlast).1]⟩

/-- An output that can be opened becomes the last sink. -/
theorem Made.add (h : Made opens now level os hub) (ho : o.failure? opens = none) :
    Made opens now level (os ++ [o]) (hub.add o) := by
  have hopen : o.canOpen opens = true := by rw [Output.canOpen, ho]; rfl
  have hcount : hub.rings.size = ringCount (os.filter (Output.canOpen opens)) := by
    rw [h.size_eq, Output.ringCount_filter_canOpen]
  refine ⟨?_, ?_, ?_, ?_⟩
  · rw [List.filter_append, List.filter_cons_of_pos hopen, List.filter_nil, sinksOf,
      sinksFrom_append, Nat.zero_add, ← hcount]
    simp only [Hub.add, h.logger_eq]
    rfl
  · rw [ringCount_append, ← h.size_eq]
    cases o <;> simp [Hub.add, ringCount, Output.capacity?]
  · simp only [Hub.add, h.delivered_eq, warned]
    rw [skipsFrom_concat, ho]
    simp
  · intro before capacity after hsplit
    rcases cases_concat_eq hsplit with ⟨rfl, rfl, rfl⟩ | ⟨after', rfl, rfl⟩
    · simp [Hub.add, Output.capacity?, ← h.size_eq, warnings, Ring.performAll]
    · have hold := h.rings_eq before capacity after' rfl
      have hlt := (Array.getElem?_eq_some_iff.mp hold).1
      simp only [Hub.add]
      rw [Array.getElem?_append_left hlt, hold]
      simp [warnings, List.filterMap_append, ho]

/-- An output that cannot be opened is warned about in the sinks so far. -/
theorem Made.log {e : SystemError} (h : Made opens now level os hub)
    (ho : o.failure? opens = some e) :
    Made opens now level (os ++ [o]) (hub.log (warning now e)) := by
  have hclosed : o.canOpen opens = false := by rw [Output.canOpen, ho]; rfl
  have hnoRing (capacity : Nat) : o ≠ .ring capacity := by
    rintro rfl
    cases ho
  have hsinks : hub.logger.sinks = sinksOf (os.filter (Output.canOpen opens)) := by
    rw [h.logger_eq]
  have hcount : hub.rings.size = ringCount (os.filter (Output.canOpen opens)) := by
    rw [h.size_eq, Output.ringCount_filter_canOpen]
  have henabled : hub.logger.isEnabled (warning now e).level = decide (level ≤ .warn) := by
    rw [h.logger_eq]
    rfl
  obtain ⟨hlogger, hdelivered, hrings⟩ := Hub.log_eq (warning now e) hub _ hsinks hcount
  rw [henabled] at hrings
  refine ⟨?_, ?_, ?_, ?_⟩
  · rw [hlogger, h.logger_eq, List.filter_append, List.filter_cons_of_neg (by simp [hclosed]),
      List.filter_nil, List.append_nil]
  · rw [size_eq_of_getElem?_eq_map hrings, ringCount_append, h.size_eq]
    cases o with
    | ring capacity => exact absurd rfl (hnoRing capacity)
    | _ => rfl
  · rw [hdelivered, Array.toList_append, h.delivered_eq, warned, warned, skipsFrom_concat, ho,
      Logger.deliveries, Logger.receivers, henabled, hsinks]
    by_cases hlevel : level ≤ .warn <;> simp [hlevel]
  · intro before capacity after hsplit
    rcases cases_concat_eq hsplit with ⟨rfl, rfl, rfl⟩ | ⟨after', rfl, rfl⟩
    · exact absurd rfl (hnoRing capacity)
    · rw [hrings, h.rings_eq before capacity after' rfl]
      by_cases hlevel : level ≤ .warn <;>
        simp [hlevel, warnings, List.filterMap_append, ho, Ring.performAll]

/-- So a lenient setup does with all its outputs. -/
theorem made_init (s : Setup) : Made opens now s.level s.outputs (s.init (m := Id) opens now) := by
  rw [init, attachSome_eq]
  induction s.outputs using List.reverseRecOn with
  | nil => exact made_new
  | append_singleton os o ih =>
    rw [List.foldl_append, List.foldl_cons, List.foldl_nil, addIfOpen]
    split
    next ho => exact ih.add ho
    next e ho => exact ih.log ho

end Setup

@[simp] theorem length_sinksFrom (k : Nat) (os : List Output) :
    (sinksFrom k os).length = os.length := by
  induction os generalizing k with
  | nil => rfl
  | cons o os ih => rw [sinksFrom, List.length_cons, ih, List.length_cons]

/-- A ring buffer among the outputs is a sink in its place. -/
theorem getElem?_sinksOf_ring (before : List Output) (capacity : Nat) (after : List Output) :
    (sinksOf (before ++ .ring capacity :: after))[before.length]? =
      some (.ring (ringCount before)) := by
  rw [sinksOf, sinksFrom_append, List.getElem?_append_right (by simp), length_sinksFrom,
    Nat.sub_self, Nat.zero_add]
  rfl

namespace Hub

variable {hub : Hub}

/-- The last ring buffer is handed over. -/
theorem lastRing?_of_split {before after : List Output} {capacity : Nat}
    (hsize : hub.rings.size = ringCount (before ++ .ring capacity :: after))
    (hafter : ringCount after = 0) : hub.lastRing? = hub.rings[ringCount before]? := by
  have hone : ringCount (.ring capacity :: after) = 1 + ringCount after :=
    ringCount_append [.ring capacity] after
  rw [ringCount_append, hone, hafter] at hsize
  rw [lastRing?, Array.back?_eq_getElem?, hsize, Nat.add_zero, Nat.add_sub_cancel]

/-- Without ring buffers, none is handed over. -/
theorem lastRing?_of_none (hsize : hub.rings.size = 0) : hub.lastRing? = none := by
  rw [lastRing?, Array.back?_eq_none_iff, Array.eq_empty_iff_size_eq_zero.mpr hsize]

/-- A new ring buffer stands where its number says. -/
theorem getElem?_rings_of (level : Level) (before : List Output) (capacity : Nat)
    (after : List Output) :
    (of level (before ++ .ring capacity :: after)).rings[ringCount before]? =
      some (.new capacity) := by
  simp [of, ringCount, Output.capacity?]

end Hub

namespace Setup

variable {opens : String → Except SystemError Unit}

theorem findSome?_failure?_eq_none_iff (os : List Output) :
    os.findSome? (Output.failure? opens) = none ↔
      ∀ path, .file path ∈ os → opens path = .ok () := by
  rw [List.findSome?_eq_none_iff]
  constructor
  · intro h path hmem
    have hopen : Output.canOpen opens (.file path) := by
      rw [Output.canOpen, h _ hmem]
      rfl
    exact (Output.canOpen_iff opens (.file path)).mp hopen path rfl
  · intro h o ho
    have hopen := (Output.canOpen_iff opens o).mpr fun path heq => h path (heq ▸ ho)
    exact Option.isNone_iff_eq_none.mp hopen

/-- A strict setup succeeds exactly if all files can be opened. -/
theorem exists_tryInit_eq_ok_iff (s : Setup) :
    (∃ hub, s.tryInit (m := Id) opens = .ok hub) ↔
      ∀ path, .file path ∈ s.outputs → opens path = .ok () := by
  rw [← findSome?_failure?_eq_none_iff, tryInit_eq]
  cases s.outputs.findSome? (Output.failure? opens) with
  | none => exact ⟨fun _ => rfl, fun _ => ⟨_, rfl⟩⟩
  | some e => exact ⟨fun ⟨_, h⟩ => (nomatch h), nofun⟩

/-- It fails with the first file that cannot be opened. -/
theorem tryInit_eq_error (s : Setup) {before after : List Output} {path : String} {e : SystemError}
    (hs : s.outputs = before ++ .file path :: after)
    (hbefore : ∀ p, .file p ∈ before → opens p = .ok ()) (he : opens path = .error e) :
    s.tryInit (m := Id) opens = .error e := by
  have hfirst : s.outputs.findSome? (Output.failure? opens) = some e := by
    rw [hs, List.findSome?_append, (findSome?_failure?_eq_none_iff before).mpr hbefore,
      Option.none_or, List.findSome?_cons]
    simp [Output.failure?, he]
  rw [tryInit_eq, hfirst]

/-- If it succeeds, every output is a sink. -/
theorem eq_of_tryInit_eq_ok {s : Setup} {hub : Hub} (h : s.tryInit (m := Id) opens = .ok hub) :
    hub = .of s.level s.outputs := by
  rw [tryInit_eq] at h
  cases hfirst : s.outputs.findSome? (Output.failure? opens) with
  | none =>
    rw [hfirst] at h
    exact (Except.ok.inj h).symm
  | some e =>
    rw [hfirst] at h
    cases h

end Setup

end StyleScan.Log
