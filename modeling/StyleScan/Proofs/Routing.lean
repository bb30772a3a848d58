import Mathlib.Data.Fintype.Card
import Mathlib.Data.List.Nodup
import Mathlib.Data.Set.Card
import StyleScan.Log.Network
import StyleScan.Proofs.Retention

/-! # Delivery in networks of loggers

A way leads from a logger to a ring: it passes from logger to logger along their sinks and ends at a
sink that is the ring.  It is open for a record if every logger on it lets the record pass.  What is
logged reaches a ring in as many copies as open ways lead there, and copies of a call come before
those of the calls after it (`logAll_copies`). -/

namespace StyleScan.Log

theorem Chained.lt_size {loggers : Array (Logger Link)} {i j : Nat} (h : Chained loggers j i) :
    i < loggers.size := by
  obtain ⟨l, hl, -⟩ := h
  exact (Array.getElem?_eq_some_iff.1 hl).1

/-- Chains of loggers come to an end exactly if none of them leads back to where it began. -/
theorem wellFounded_chained_iff (loggers : Array (Logger Link)) :
    WellFounded (Chained loggers) ↔ ∀ i, ¬ Relation.TransGen (Chained loggers) i i := by
  constructor
  · exact fun h i hi => h.transGen.irrefl.irrefl i hi
  · intro h
    -- There are finitely many loggers, so that chains without circles come to an end among them.
    have hfinite :
        WellFounded (Relation.TransGen fun j i : Fin loggers.size => Chained loggers j i) := by
      have : Std.Irrefl (Relation.TransGen fun j i : Fin loggers.size => Chained loggers j i) :=
        ⟨fun i hi => h i (hi.lift Fin.val fun _ _ hji => hji)⟩
      exact Finite.wellFounded_of_trans_of_irrefl _
    have hout (j : Nat) (hj : loggers.size ≤ j) : Acc (Chained loggers) j :=
      ⟨j, fun k hk => absurd hk.lt_size (Nat.not_lt.mpr hj)⟩
    have hin (i : Fin loggers.size) : Acc (Chained loggers) i := by
      induction i using hfinite.induction with
      | _ i ih =>
        refine ⟨_, fun j hj => ?_⟩
        rcases Nat.lt_or_ge j loggers.size with hlt | hge
        · exact ih ⟨j, hlt⟩ (.single hj)
        · exact hout j hge
    refine ⟨fun i => ?_⟩
    rcases Nat.lt_or_ge i loggers.size with hlt | hge
    · exact hin ⟨i, hlt⟩
    · exact hout i hge
/-- A way from a sink to ring `k`: the loggers that it passes, each with the place of the sink by
which it goes on. -/
inductive Way (loggers : Array (Logger Link)) (k : Nat) : Link → List (Nat × Nat) → Prop where
  | arrive : Way loggers k (.ring k) []
  | pass {i p : Nat} {l : Logger Link} {s : Link} {way : List (Nat × Nat)} :
    loggers[i]? = some l → l.sinks[p]? = some s → Way loggers k s way →
      Way loggers k (.logger i) ((i, p) :: way)

/-- Every logger on the way lets records of the level pass. -/
def IsOpen (loggers : Array (Logger Link)) (level : Level) (way : List (Nat × Nat)) : Prop :=
  ∀ step ∈ way, ∃ l, loggers[step.1]? = some l ∧ l.level ≤ level

theorem isOpen_cons {loggers : Array (Logger Link)} {level : Level} {i p : Nat}
    {way : List (Nat × Nat)} {l : Logger Link} (hl : loggers[i]? = some l) :
    IsOpen loggers level ((i, p) :: way) ↔ l.isEnabled level ∧ IsOpen loggers level way := by
  simp [IsOpen, hl, Logger.isEnabled]

theorem Logger.mem_sinks_of_mem_receivers {σ : Type} {l : Logger σ} {level : Level} {s : σ}
    (h : s ∈ l.receivers level) : s ∈ l.sinks := by
  unfold receivers at h
  split at h
  · exact h
  · cases h

/-- Records go to the sinks of a logger by their places, if it lets them pass. -/
theorem Logger.getElem?_receivers_eq_some {σ : Type} {l : Logger σ} {level : Level} {p : Nat}
    {s : σ} : (l.receivers level)[p]? = some s ↔ l.isEnabled level ∧ l.sinks[p]? = some s := by
  unfold receivers
  split
  next h => simp [h]
  next h => simp [h]

namespace Network

variable (n : Network) (level : Level) (k : Nat)

/-- The rings that a record reaches by a sink. -/
def reachedBy : Link → List Nat
  | .ring r => [r]
  | .logger j => n.reached level j

theorem reached_of_none {i : Nat} (h : n.loggers[i]? = none) : n.reached level i = [] := by
  rw [reached]
  split
  next => rfl
  next hl => cases h.symm.trans hl

/-- A record reaches what it reaches by the sinks that get it. -/
theorem reached_of_some {i : Nat} {l : Logger Link} (h : n.loggers[i]? = some l) :
    n.reached level i = (l.receivers level).flatMap (n.reachedBy level) := by
  rw [reached]
  split
  next hnone => cases hnone.symm.trans h
  next m hm =>
    cases hm.symm.trans h
    rw [Logger.receivers]
    split
    · refine (List.flatMap_subtype fun s hs => ?_).trans (by rw [List.unattach_attach])
      cases s <;> rfl
    · rfl

/-- The rings do not matter for where a record goes. -/
theorem reached_congr {m : Network} (h : m.loggers = n.loggers) (i : Nat) :
    m.reached level i = n.reached level i := by
  induction i using n.acyclic.induction with
  | _ i ih =>
    cases hl : n.loggers[i]? with
    | none => rw [n.reached_of_none level hl, m.reached_of_none level (h ▸ hl)]
    | some l =>
      rw [n.reached_of_some level hl, m.reached_of_some level (h ▸ hl)]
      refine List.flatMap_congr fun s hs => ?_
      cases s with
      | ring r => rfl
      | logger j => exact ih j ⟨l, hl, Logger.mem_sinks_of_mem_receivers hs⟩

/-- The open ways from logger `i` to ring `k`, in the order of delivery. -/
def openWays (i : Nat) : List (List (Nat × Nat)) :=
  match h : n.loggers[i]? with
  | none => []
  | some l =>
    (l.receivers level).zipIdx.attach.flatMap fun
      | ⟨(.ring r, p), _⟩ => if r = k then [[(i, p)]] else []
      | ⟨(.logger j, p), hmem⟩ =>
        have : Chained n.loggers j i :=
          ⟨l, h, Logger.mem_sinks_of_mem_receivers (List.fst_mem_of_mem_zipIdx hmem)⟩
        (openWays j).map ((i, p) :: ·)
termination_by n.acyclic.wrap i

/-- How open ways go on after a sink. -/
def openWaysBy : Link → List (List (Nat × Nat))
  | .ring r => if r = k then [[]] else []
  | .logger j => n.openWays level k j

theorem openWays_of_none {i : Nat} (h : n.loggers[i]? = none) : n.openWays level k i = [] := by
  rw [openWays]
  split
  next => rfl
  next hl => cases h.symm.trans hl

theorem openWays_of_some {i : Nat} {l : Logger Link} (h : n.loggers[i]? = some l) :
    n.openWays level k i = (l.receivers level).zipIdx.flatMap fun s =>
      (n.openWaysBy level k s.1).map ((i, s.2) :: ·) := by
  rw [openWays]
  split
  next hnone => cases hnone.symm.trans h
  next m hm =>
    cases hm.symm.trans h
    refine (List.flatMap_subtype fun s hs => ?_).trans (by rw [List.unattach_attach])
    rcases s with ⟨r | j, p⟩
    · simp only [openWaysBy]
      split <;> rfl
    · rfl

/-- As many copies arrive as there are open ways. -/
theorem length_openWays (i : Nat) :
    (n.openWays level k i).length = (n.reached level i).count k := by
  induction i using n.acyclic.induction with
  | _ i ih =>
    cases hl : n.loggers[i]? with
    | none => rw [n.openWays_of_none level k hl, n.reached_of_none level hl]; rfl
    | some l =>
      have hsink (s : Link) (hs : s ∈ l.receivers level) :
          (n.openWaysBy level k s).length = (n.reachedBy level s).count k := by
        cases s with
        | ring r =>
          simp only [openWaysBy, reachedBy, List.count_singleton, beq_iff_eq]
          split <;> rfl
        | logger j => exact ih j ⟨l, hl, Logger.mem_sinks_of_mem_receivers hs⟩
      rw [n.openWays_of_some level k hl, n.reached_of_some level hl, List.length_flatMap,
        List.count_flatMap]
      have hplaces : (l.receivers level).zipIdx.map (fun s => (n.openWaysBy level k s.1).length) =
          (l.receivers level).map fun s => (n.openWaysBy level k s).length := by
        rw [← List.zipIdx_map_fst 0 (l.receivers level), List.map_map, List.zipIdx_map_fst]
        rfl
      simp only [Function.comp_def, List.length_map]
      rw [hplaces]
      exact congrArg List.sum (List.map_congr_left hsink)

theorem mem_openWaysBy_ring {r : Nat} {way : List (Nat × Nat)} :
    way ∈ n.openWaysBy level k (.ring r) ↔
      Way n.loggers k (.ring r) way ∧ IsOpen n.loggers level way := by
  change way ∈ (if r = k then [[]] else []) ↔ _
  constructor
  · split
    next h =>
      intro hway
      obtain rfl := List.mem_singleton.mp hway
      exact ⟨h ▸ .arrive, by simp [IsOpen]⟩
    next => exact nofun
  · rintro ⟨⟨⟩, -⟩
    simp

/-- The open ways are the ways that are open. -/
theorem mem_openWays {i : Nat} {way : List (Nat × Nat)} :
    way ∈ n.openWays level k i ↔ Way n.loggers k (.logger i) way ∧ IsOpen n.loggers level way := by
  induction i using n.acyclic.induction generalizing way with
  | _ i ih =>
    cases hl : n.loggers[i]? with
    | none =>
      rw [n.openWays_of_none level k hl]
      refine ⟨nofun, fun ⟨hway, _⟩ => ?_⟩
      cases hway with
      | pass hm _ _ => cases hl.symm.trans hm
    | some l =>
      have hsink {s : Link} {rest : List (Nat × Nat)} (hs : s ∈ l.sinks) :
          rest ∈ n.openWaysBy level k s ↔ Way n.loggers k s rest ∧ IsOpen n.loggers level rest := by
        cases s with
        | ring r => exact n.mem_openWaysBy_ring level k
        | logger j => exact ih j ⟨l, hl, hs⟩
      rw [n.openWays_of_some level k hl, List.mem_flatMap]
      constructor
      · rintro ⟨⟨s, p⟩, hs, hway⟩
        obtain ⟨rest, hrest, rfl⟩ := List.mem_map.mp hway
        obtain ⟨hopen, hplace⟩ :=
          Logger.getElem?_receivers_eq_some.mp (List.mem_zipIdx_iff_getElem?.mp hs)
        obtain ⟨hleads, hon⟩ := (hsink (List.mem_of_getElem? hplace)).mp hrest
        exact ⟨.pass hl hplace hleads, (isOpen_cons hl).mpr ⟨hopen, hon⟩⟩
      · rintro ⟨hway, hopen⟩
        cases hway with
        | @pass _ p m s rest hm hplace hleads =>
          cases hl.symm.trans hm
          obtain ⟨hfirst, hon⟩ := (isOpen_cons hl).mp hopen
          refine ⟨(s, p), ?_, ?_⟩
          · rw [List.mem_zipIdx_iff_getElem?, Logger.getElem?_receivers_eq_some]
            exact ⟨hfirst, hplace⟩
          · exact List.mem_map_of_mem ((hsink (List.mem_of_getElem? hplace)).mpr ⟨hleads, hon⟩)

/-- Ways that go on by different sinks are different. -/
theorem nodup_openWays (i : Nat) : (n.openWays level k i).Nodup := by
  induction i using n.acyclic.induction with
  | _ i ih =>
    cases hl : n.loggers[i]? with
    | none =>
      rw [n.openWays_of_none level k hl]
      exact List.nodup_nil
    | some l =>
      have hsink (s : Link) (hs : s ∈ l.receivers level) : (n.openWaysBy level k s).Nodup := by
        cases s with
        | ring r =>
          change (if r = k then [[]] else []).Nodup
          split
          · exact List.nodup_singleton []
          · exact List.nodup_nil
        | logger j => exact ih j ⟨l, hl, Logger.mem_sinks_of_mem_receivers hs⟩
      have hplaces : (l.receivers level).zipIdx.Pairwise fun s t => s.2 ≠ t.2 := by
        have hrange := List.nodup_range' (s := 0) (n := (l.receivers level).length)
        rw [← List.zipIdx_map_snd, List.Nodup, List.pairwise_map] at hrange
        exact hrange
      rw [n.openWays_of_some level k hl, List.nodup_flatMap]
      refine ⟨fun s hs => ?_, hplaces.imp fun hne way hs ht => ?_⟩
      · exact (hsink s.1 (List.fst_mem_of_mem_zipIdx hs)).map fun _ _ h => (List.cons.inj h).2
      · obtain ⟨v, -, rfl⟩ := List.mem_map.mp hs
        obtain ⟨w, -, hw⟩ := List.mem_map.mp ht
        simp only [List.cons.injEq, Prod.mk.injEq] at hw
        exact hne hw.1.2.symm

/-- As many copies arrive as there are open ways. -/
theorem encard_ways (i : Nat) :
    {way | Way n.loggers k (.logger i) way ∧ IsOpen n.loggers level way}.encard =
      (n.reached level i).count k := by
  have hset : {way | Way n.loggers k (.logger i) way ∧ IsOpen n.loggers level way} =
      ((n.openWays level k i).toFinset : Set (List (Nat × Nat))) := by
    ext way
    simp [mem_openWays]
  rw [hset, Set.encard_coe_eq_coe_finsetCard,
    List.toFinset_card_of_nodup (n.nodup_openWays level k i), length_openWays]

end Network

/-- What somebody logs through a logger, and the times of the copies. -/
structure Call where
  logger : Nat
  entry : Entry
  time : Nat → Nat

namespace Network

variable (n : Network)

/-- Makes calls in order. -/
def logAll (n : Network) (calls : List Call) : Network :=
  calls.foldl (fun n call => n.logTimed call.logger call.entry call.time) n

/-- The copies of a call that ring `k` gets, in order. -/
def copies (call : Call) (k : Nat) : List Record :=
  ((n.reached call.entry.level call.logger).zipIdx.filter fun d => d.1 = k).map fun d =>
    call.entry.stamp (call.time d.2)

theorem length_copies (call : Call) (k : Nat) :
    (n.copies call k).length = (n.reached call.entry.level call.logger).count k := by
  have hfst := List.zipIdx_map_fst 0 (n.reached call.entry.level call.logger)
  rw [copies, List.length_map, ← List.countP_eq_length_filter]
  conv_rhs => rw [← hfst, List.count, List.countP_map]
  refine List.countP_congr fun d _ => ?_
  simp

/-- Records that are delivered one after the other come into each ring in their order. -/
theorem getElem?_foldl_modify (rings : Array Ring) (deliveries : List (Nat × Nat))
    (record : Nat → Record) (k : Nat) :
    (deliveries.foldl (fun rings (j, m) => rings.modify j (·.write (record m))) rings)[k]? =
      rings[k]?.map fun ring =>
        ring.performAll ((deliveries.filter fun d => d.1 = k).map fun d => .write (record d.2)) := by
  induction deliveries generalizing rings with
  | nil => simp [Ring.performAll]
  | cons d deliveries ih =>
    rw [List.foldl_cons, ih, Array.getElem?_modify, List.filter_cons]
    by_cases h : d.1 = k
    · simp [h, Ring.performAll, Ring.perform, Function.comp_def]
    · simp [h]

theorem getElem?_rings_logTimed (call : Call) (k : Nat) :
    (n.logTimed call.logger call.entry call.time).rings[k]? =
      n.rings[k]?.map (·.performAll ((n.copies call k).map .write)) := by
  rw [copies, List.map_map]
  exact getElem?_foldl_modify n.rings _ (fun m => call.entry.stamp (call.time m)) k

/-- Every ring gets the copies of each call, call by call. -/
theorem logAll_eq (calls : List Call) :
    (n.logAll calls).loggers = n.loggers ∧
      ∀ k : Nat, (n.logAll calls).rings[k]? =
        n.rings[k]?.map (·.performAll ((calls.flatMap (n.copies · k)).map .write)) := by
  induction calls using List.reverseRecOn with
  | nil => exact ⟨rfl, fun k => by simp [logAll, Ring.performAll]⟩
  | append_singleton calls call ih =>
    obtain ⟨hloggers, hrings⟩ := ih
    have hlast : n.logAll (calls ++ [call]) =
        (n.logAll calls).logTimed call.logger call.entry call.time := by
      simp [logAll]
    have hcopies (k : Nat) : (n.logAll calls).copies call k = n.copies call k := by
      rw [copies, n.reached_congr call.entry.level hloggers, copies]
    refine ⟨by rw [hlast]; exact hloggers, fun k => ?_⟩
    rw [hlast, getElem?_rings_logTimed, hrings, hcopies, Option.map_map]
    congr 1
    funext ring
    simp [Ring.performAll]

/-- Every copy says what was logged. -/
theorem toEntry_of_mem_copies {call : Call} {k : Nat} {r : Record} (h : r ∈ n.copies call k) :
    r.toEntry = call.entry := by
  obtain ⟨d, -, rfl⟩ := List.mem_map.mp h
  rfl

end Network

/-- Whatever is logged in a network, loggers keep their thresholds and sinks.  Each ring is written
one batch of records for each call, in the order of the calls: copies of what the call logs, as many
as there are open ways from the logger that is called to the ring. -/
theorem logAll_copies (n : Network) (calls : List Call) :
    (n.logAll calls).loggers = n.loggers ∧ (n.logAll calls).rings.size = n.rings.size ∧
      ∀ (k : Nat) (ring : Ring), n.rings[k]? = some ring → ∃ batches : List (List Record),
        List.Forall₂ (fun (call : Call) batch => (∀ r ∈ batch, r.toEntry = call.entry) ∧
          {way | Way n.loggers k (.logger call.logger) way ∧
            IsOpen n.loggers call.entry.level way}.encard = batch.length) calls batches ∧
        let written := ring.performAll (batches.flatten.map .write)
        (n.logAll calls).rings[k]? = some written ∧
          ∀ capacity rs, ring.Keeps capacity rs →
            written.Keeps capacity (rs ++ batches.flatten) := by
  obtain ⟨hloggers, hrings⟩ := n.logAll_eq calls
  refine ⟨hloggers, size_eq_of_getElem?_eq_map hrings, fun k ring hring =>
    ⟨calls.map (n.copies · k), ?_, ?_, ?_⟩⟩
  · rw [List.forall₂_map_right_iff, List.forall₂_same]
    refine fun call _ => ⟨fun r hr => n.toEntry_of_mem_copies hr, ?_⟩
    rw [n.encard_ways, n.length_copies]
  · rw [hrings, hring, List.flatMap_def, Option.map_some]
  · exact fun capacity rs h => h.performAll_write _

end StyleScan.Log
