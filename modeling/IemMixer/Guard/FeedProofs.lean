import IemMixer.Guard.Watch

/-! What one read does to the guard: the counts it compares, each loop's outcome said once, and every
way a read can end. -/
namespace IemMixer.Guard
open Lib

section
variable {K : Type}

/-- What a sample shows of a cumulative count. -/
def Sample.count (s : Sample K) : CounterKey → ℕ
  | .req key => Dict.get s.requests key 0
  | .sent peer => Dict.get s.flowRequests peer 0
  | .arc peer => Dict.get s.arcReads peer 0
  | .tx flow => (Dict.get s.tx flow (0, 0)).2
  | .rx flow => (Dict.get s.rx flow (0, 0)).2
  | .polls => s.polls

/-- A direction's flows. -/
def Direction.flows : Direction → Sample K → Dict ℕ (ℕ × ℕ)
  | .tx, s => s.tx
  | .rx, s => s.rx

/-- A flow's count of packets. -/
def Direction.key : Direction → ℕ → CounterKey
  | .tx, flow => .tx flow
  | .rx, flow => .rx flow

theorem get_counters (s : Sample K) (key : CounterKey) : Dict.get (counters s) key 0 = s.count key := by
  simp only [counters, Dict.get, Dict.ofItems]
  cases key with
  | polls =>
    rw [AList.lookup_insert]
    rfl
  | req key =>
    rw [AList.lookup_insert_ne (by simp), Dict.lookup_update_apart (f := Prod.snd) (by simp),
      Dict.lookup_update_apart (f := Prod.snd) (by simp), Dict.lookup_update_apart (f := fun n => n) (by simp),
      Dict.lookup_update_apart (f := fun n => n) (by simp),
      Dict.lookup_update_tagged (f := fun n => n) (fun _ _ same => CounterKey.req.inj same) _ _ _ (by simp)]
    simp [Sample.count, Dict.get]
  | sent peer =>
    rw [AList.lookup_insert_ne (by simp), Dict.lookup_update_apart (f := Prod.snd) (by simp),
      Dict.lookup_update_apart (f := Prod.snd) (by simp), Dict.lookup_update_apart (f := fun n => n) (by simp),
      Dict.lookup_update_tagged (f := fun n => n) (fun _ _ same => CounterKey.sent.inj same) _ _ _
        (by rw [Dict.lookup_update_apart (f := fun n => n) (by simp), AList.lookup_empty])]
    simp [Sample.count, Dict.get]
  | arc peer =>
    rw [AList.lookup_insert_ne (by simp), Dict.lookup_update_apart (f := Prod.snd) (by simp),
      Dict.lookup_update_apart (f := Prod.snd) (by simp),
      Dict.lookup_update_tagged (f := fun n => n) (fun _ _ same => CounterKey.arc.inj same) _ _ _
        (by
          rw [Dict.lookup_update_apart (f := fun n => n) (by simp),
            Dict.lookup_update_apart (f := fun n => n) (by simp),
          AList.lookup_empty])]
    simp [Sample.count, Dict.get]
  | tx flow =>
    rw [AList.lookup_insert_ne (by simp), Dict.lookup_update_apart (f := Prod.snd) (by simp),
      Dict.lookup_update_tagged (f := Prod.snd) (fun _ _ same => CounterKey.tx.inj same) _ _ _
        (by
          rw [Dict.lookup_update_apart (f := fun n => n) (by simp),
            Dict.lookup_update_apart (f := fun n => n) (by simp),
          Dict.lookup_update_apart (f := fun n => n) (by simp), AList.lookup_empty])]
    cases held : s.tx.lookup flow <;> simp [Sample.count, Dict.get, held]
  | rx flow =>
    rw [AList.lookup_insert_ne (by simp),
      Dict.lookup_update_tagged (f := Prod.snd) (fun _ _ same => CounterKey.rx.inj same) _ _ _
        (by
          rw [Dict.lookup_update_apart (f := Prod.snd) (by simp),
            Dict.lookup_update_apart (f := fun n => n) (by simp),
          Dict.lookup_update_apart (f := fun n => n) (by simp), Dict.lookup_update_apart (f := fun n => n) (by simp),
          AList.lookup_empty])]
    cases held : s.rx.lookup flow <;> simp [Sample.count, Dict.get, held]

/-- The counts went back exactly when one did. -/
theorem wentBack_iff (a s : Sample K) : wentBack a s = true ↔ ∃ key, s.count key < a.count key := by
  simp only [wentBack, List.any_eq_true, decide_eq_true_eq, get_counters, Prod.exists, Dict.mem_items]
  constructor
  · rintro ⟨key, n, held, less⟩
    refine ⟨key, ?_⟩
    rwa [← get_counters a, Dict.get, held, Option.getD_some]
  · rintro ⟨key, less⟩
    cases held : (counters a).lookup key with
    | none =>
      rw [← get_counters a, Dict.get, held] at less
      simp at less
    | some n =>
      refine ⟨key, n, held, ?_⟩
      rwa [← get_counters a, Dict.get, held, Option.getD_some] at less

theorem mem_requestKeys {a s : Sample K} {key : RequestKey} :
    key ∈ requestKeys a s ↔ key ∈ a.requests.keys ∨ key ∈ s.requests.keys := by
  rw [requestKeys, (List.perm_insertionSort _ _).mem_iff, List.mem_dedup, List.mem_append]

theorem requestKeys_nodup (a s : Sample K) : (requestKeys a s).Nodup :=
  (List.perm_insertionSort _ _).nodup_iff.mpr (List.nodup_dedup _)

end

variable {K : Type} [Field K] [LinearOrder K]

section
variable [FloorRing K]

/-- The loop over the keys either leaves every key's run where it stands, none of them long enough, or
trips on the first that is. -/
theorem requestsOver_cases {a s : Sample K} {keys : List RequestKey} (distinct : keys.Nodup) (w : Watch K) :
    (∃ w', Watch.requestsOver a s keys w = (w', none) ∧ w'.rate = w.rate ∧ w'.last = w.last ∧ w'.recent = w.recent ∧
        (∀ key ∈ keys, w'.overSince.lookup key =
          if rateOf a s key ≤ (requestRate : ℕ) then none else some (Dict.get w.overSince key a.t)) ∧
        (∀ key ∉ keys, w'.overSince.lookup key = w.overSince.lookup key) ∧
        ∀ key ∈ keys, ¬rateOf a s key ≤ (requestRate : ℕ) → s.t - Dict.get w.overSince key a.t < (sustainS : ℕ)) ∨
      ∃ w', ∃ key ∈ keys, Watch.requestsOver a s keys w =
          (w', some (.requests key (round1 (rateOf a s key)) (round1 (s.t - Dict.get w.overSince key a.t)))) ∧
        ¬rateOf a s key ≤ (requestRate : ℕ) ∧ (sustainS : ℕ) ≤ s.t - Dict.get w.overSince key a.t := by
  induction keys generalizing w with
  | nil => exact .inl ⟨w, rfl, rfl, rfl, rfl, by simp, by simp, by simp⟩
  | cons key keys ih =>
    obtain ⟨fresh, distinct⟩ := List.nodup_cons.mp distinct
    have other {k : RequestKey} (member : k ∈ keys) : k ≠ key := fun same => fresh (same ▸ member)
    rw [Watch.requestsOver]
    by_cases slow : rateOf a s key ≤ (requestRate : ℕ)
    · simp only [if_pos slow]
      rcases ih distinct { w with
          peaks := { w.peaks with requestRate := max w.peaks.requestRate (rateOf a s key) }
          overSince := w.overSince.erase key } with
        ⟨w', same, rate, last, recent, runs, rest, calm⟩ | ⟨w', k, member, same, fast, long⟩
      · refine .inl ⟨w', same, rate, last, recent, fun k member => ?_, fun k away => ?_, fun k member fast => ?_⟩
        · rcases List.mem_cons.mp member with rfl | member
          · rw [rest k fresh, if_pos slow, AList.lookup_erase]
          · rw [runs k member, Dict.get_erase_ne (other member)]
        · rw [List.mem_cons, not_or] at away
          rw [rest k away.2, AList.lookup_erase_ne away.1]
        · rcases List.mem_cons.mp member with rfl | member
          · exact absurd slow fast
          · have short := calm k member fast
            rwa [Dict.get_erase_ne (other member)] at short
      · rw [Dict.get_erase_ne (other member)] at same long
        exact .inr ⟨w', k, List.mem_cons_of_mem _ member, same, fast, long⟩
    · simp only [if_neg slow]
      by_cases long : (sustainS : ℕ) ≤ s.t - Dict.get w.overSince key a.t
      · rw [if_pos long]
        exact .inr ⟨_, key, List.mem_cons_self, rfl, slow, long⟩
      · rw [if_neg long]
        rcases ih distinct { w with
            peaks := { w.peaks with requestRate := max w.peaks.requestRate (rateOf a s key) }
            overSince := w.overSince.insert key (Dict.get w.overSince key a.t) } with
          ⟨w', same, rate, last, recent, runs, rest, calm⟩ | ⟨w', k, member, same, fast, long'⟩
        · refine .inl ⟨w', same, rate, last, recent, fun k member => ?_, fun k away => ?_, fun k member fast => ?_⟩
          · rcases List.mem_cons.mp member with rfl | member
            · rw [rest k fresh, if_neg slow, AList.lookup_insert]
            · rw [runs k member, Dict.get_insert_ne (other member)]
          · rw [List.mem_cons, not_or] at away
            rw [rest k away.2, AList.lookup_insert_ne away.1]
          · rcases List.mem_cons.mp member with rfl | member
            · exact not_le.mp long
            · have short := calm k member fast
              rwa [Dict.get_insert_ne (other member)] at short
        · rw [Dict.get_insert_ne (other member)] at same long'
          exact .inr ⟨w', k, List.mem_cons_of_mem _ member, same, fast, long'⟩

theorem moreThan_some {most : ℕ} {before : Dict ℕ ℕ} {items : List (ℕ × ℕ)} {peak peak' more : ℤ} {peer : ℕ}
    (found : moreThan most before items peak = (peak', some (peer, more))) :
    ∃ n, (peer, n) ∈ items ∧ most < (n : ℤ) - Dict.get before peer 0 := by
  induction items generalizing peak with
  | nil => cases found
  | cons item items ih =>
    obtain ⟨p, n⟩ := item
    simp only [moreThan] at found
    split at found
    next above =>
      obtain ⟨-, same⟩ := Prod.mk.inj found
      obtain ⟨rfl, -⟩ := Prod.mk.inj (Option.some.inj same)
      exact ⟨n, List.mem_cons_self, above⟩
    next =>
      obtain ⟨m, member, above⟩ := ih found
      exact ⟨m, List.mem_cons_of_mem _ member, above⟩

/-- Two more of one peer than an earlier sample showed. -/
inductive Burst (a s : Sample K) : Trip K → Prop where
  | arcReads {peer : ℕ} {reads : ℤ} {withinS : K} (more : a.count (.arc peer) + 2 ≤ s.count (.arc peer)) :
      Burst a s (.arcReads peer reads withinS)
  | flowRequests {peer : ℕ} {requests : ℤ} {withinS : K} (more : a.count (.sent peer) + 2 ≤ s.count (.sent peer)) :
      Burst a s (.flowRequests peer requests withinS)

theorem flowsAgainst_some {s : Sample K} {earlier : List (Sample K)} {peaks peaks' : Peaks K} {trip : Trip K}
    (tripped : flowsAgainst s earlier peaks = (peaks', some trip)) : ∃ a ∈ earlier, Burst a s trip := by
  induction earlier generalizing peaks with
  | nil => cases tripped
  | cons a rest ih =>
    simp only [flowsAgainst] at tripped
    split at tripped
    next peak peer reads found =>
      obtain ⟨-, same⟩ := Prod.mk.inj tripped
      cases same
      obtain ⟨n, member, above⟩ := moreThan_some found
      refine ⟨a, List.mem_cons_self, .arcReads ?_⟩
      have shown : s.count (.arc peer) = n := by rw [Sample.count, Dict.get, Dict.mem_sortedItems.mp member]; rfl
      have before : a.count (.arc peer) = Dict.get a.arcReads peer 0 := rfl
      rw [arcReadsMax] at above
      omega
    next peak quiet =>
      split at tripped
      next peak' peer requests found =>
        obtain ⟨-, same⟩ := Prod.mk.inj tripped
        cases same
        obtain ⟨n, member, above⟩ := moreThan_some found
        refine ⟨a, List.mem_cons_self, .flowRequests ?_⟩
        have shown : s.count (.sent peer) = n := by rw [Sample.count, Dict.get, Dict.mem_sortedItems.mp member]; rfl
        have before : a.count (.sent peer) = Dict.get a.flowRequests peer 0 := rfl
        rw [flowRequestsMax] at above
        omega
      next peak' quiet' =>
        obtain ⟨b, member, burst⟩ := ih tripped
        exact ⟨b, List.mem_cons_of_mem _ member, burst⟩

theorem packetsOf_some {rate : ℕ} {direction : Direction} {gap : K} {before : Dict ℕ (ℕ × ℕ)}
    {flows : List (ℕ × ℕ × ℕ)} {peaks peaks' : Peaks K} {trip : Trip K}
    (tripped : packetsOf rate direction gap before flows peaks = (peaks', some trip)) :
    ∃ flow fpp packets pps limit, (flow, fpp, packets) ∈ flows ∧ trip = .packets direction flow pps limit ∧
      packetMargin * perSecond rate fpp (Dict.get before flow (0, 0)).1 <
        ((packets : K) - ((Dict.get before flow (0, 0)).2 : ℕ)) / gap := by
  induction flows generalizing peaks with
  | nil => cases tripped
  | cons item flows ih =>
    obtain ⟨flow, fpp, packets⟩ := item
    simp only [packetsOf] at tripped
    split at tripped
    next above =>
      obtain ⟨-, same⟩ := Prod.mk.inj tripped
      exact ⟨flow, fpp, packets, _, _, List.mem_cons_self, (Option.some.inj same).symm, above⟩
    next =>
      obtain ⟨f, fpp, n, pps, limit, member, rest⟩ := ih tripped
      exact ⟨f, fpp, n, pps, limit, List.mem_cons_of_mem _ member, rest⟩

theorem flows_spec (w : Watch K) (s : Sample K) :
    (w.flows s).1.rate = w.rate ∧ (w.flows s).1.last = w.last ∧ (w.flows s).1.overSince = w.overSince ∧
      (∀ b ∈ (w.flows s).1.recent, b ∈ w.recent ∨ b = s) ∧
      ∀ trip, (w.flows s).2 = some trip → ∃ b ∈ w.recent, width b s ≤ (flowSpanS : ℕ) ∧ Burst b s trip := by
  refine ⟨rfl, rfl, rfl, fun b member => ?_, fun trip tripped => ?_⟩
  · rcases List.mem_append.mp member with member | member
    · exact .inl (List.mem_of_mem_filter member)
    · exact .inr (List.mem_singleton.mp member)
  · simp only [Watch.flows, List.dropLast_concat] at tripped
    obtain ⟨b, member, burst⟩ := flowsAgainst_some (Prod.ext rfl tripped)
    obtain ⟨member, near⟩ := List.mem_filter.mp member
    exact ⟨b, member, of_decide_eq_true near, burst⟩

theorem packets_spec (w : Watch K) (a s : Sample K) :
    (w.packets a s).1.rate = w.rate ∧ (w.packets a s).1.last = w.last ∧ (w.packets a s).1.overSince = w.overSince ∧
      (w.packets a s).1.recent = w.recent ∧
      ∀ trip, (w.packets a s).2 = some trip → ∃ direction : Direction, ∃ flow fpp packets pps limit,
        (direction.flows s).lookup flow = some (fpp, packets) ∧ trip = .packets direction flow pps limit ∧
        packetMargin * perSecond w.rate fpp (Dict.get (direction.flows a) flow (0, 0)).1 <
          ((packets : K) - ((Dict.get (direction.flows a) flow (0, 0)).2 : ℕ)) / width a s := by
  rw [Watch.packets]
  rcases sent : packetsOf w.rate .tx (width a s) a.tx (Dict.sortedItems s.tx) w.peaks with ⟨peaks, _ | trip⟩
  · refine ⟨rfl, rfl, rfl, rfl, fun trip tripped => ?_⟩
    obtain ⟨flow, fpp, packets, pps, limit, member, same, above⟩ := packetsOf_some (Prod.ext rfl tripped)
    exact ⟨.rx, flow, fpp, packets, pps, limit, Dict.mem_sortedItems.mp member, same, above⟩
  · refine ⟨rfl, rfl, rfl, rfl, fun trip' tripped => ?_⟩
    obtain ⟨flow, fpp, packets, pps, limit, member, same, above⟩ := packetsOf_some sent
    obtain rfl : trip = trip' := Option.some.inj tripped
    exact ⟨.tx, flow, fpp, packets, pps, limit, Dict.mem_sortedItems.mp member, same, above⟩

end

/-- Two reads the guard compares: there is time between them and no count went back. -/
structure Comparable (a s : Sample K) : Prop where
  apart : 0 < width a s
  kept : ∀ key, a.count key ≤ s.count key

/-- A pair that shows more new requests of `key` than the bound over its widest gap. -/
def Looping (key : RequestKey) (a s : Sample K) : Prop :=
  (requestRate : ℕ) * width a s < (s.count (.req key) : K) - a.count (.req key)

variable [IsStrictOrderedRing K]

theorem looping_iff {key : RequestKey} {a s : Sample K} (apart : 0 < width a s) :
    Looping key a s ↔ ¬rateOf a s key ≤ (requestRate : ℕ) := by
  rw [not_le, rateOf, lt_div_iff₀ apart]
  rfl

/-- What loops was counted. -/
theorem Looping.counted {key : RequestKey} {a s : Sample K} (looping : Looping key a s) (apart : 0 < width a s) :
    s.count (.req key) ≠ 0 := by
  intro zero
  rw [Looping, zero] at looping
  have before : (0 : K) ≤ a.count (.req key) := Nat.cast_nonneg _
  have bound : (0 : K) ≤ (requestRate : ℕ) * width a s := mul_nonneg (Nat.cast_nonneg _) apart.le
  rw [Nat.cast_zero, zero_sub] at looping
  linarith

variable [FloorRing K]

/-- Every way a read can end: the first sample and the first after a restart are only kept, a sample with no
time before it is not, and any other trips or moves every key's run on. -/
inductive Fed (w : Watch K) (s : Sample K) : Watch K → Option (Trip K) → Prop where
  | first {w' : Watch K} (fresh : w.last = none) (rate : w'.rate = w.rate) (last : w'.last = some s)
      (overSince : w'.overSince = ∅) (recent : w'.recent = [s]) : Fed w s w' none
  | still {a : Sample K} (last : w.last = some a) (together : width a s ≤ 0) : Fed w s w none
  | restarted {a : Sample K} {w' : Watch K} (before : w.last = some a) (apart : 0 < width a s)
      (back : ∃ key, s.count key < a.count key) (rate : w'.rate = w.rate) (last : w'.last = some s)
      (overSince : w'.overSince = ∅) (recent : w'.recent = [s]) : Fed w s w' none
  | looped {a : Sample K} {w' : Watch K} {key : RequestKey} {rate seconds : K} (before : w.last = some a)
      (pair : Comparable a s) (looping : Looping key a s)
      (long : (sustainS : ℕ) ≤ s.t - Dict.get w.overSince key a.t) : Fed w s w' (some (.requests key rate seconds))
  | burst {a b : Sample K} {w' : Watch K} {trip : Trip K} (before : w.last = some a) (pair : Comparable a s)
      (calm : ∀ key, Looping key a s → s.t - Dict.get w.overSince key a.t < (sustainS : ℕ)) (recent : b ∈ w.recent)
      (near : width b s ≤ (flowSpanS : ℕ)) (more : Burst b s trip) : Fed w s w' (some trip)
  | flooded {a : Sample K} {w' : Watch K} {direction : Direction} {flow fpp packets : ℕ} {pps limit : K}
      (before : w.last = some a) (pair : Comparable a s)
      (calm : ∀ key, Looping key a s → s.t - Dict.get w.overSince key a.t < (sustainS : ℕ))
      (now : (direction.flows s).lookup flow = some (fpp, packets))
      (above : packetMargin * perSecond w.rate fpp (Dict.get (direction.flows a) flow (0, 0)).1 <
        ((packets : K) - ((Dict.get (direction.flows a) flow (0, 0)).2 : ℕ)) / width a s) :
      Fed w s w' (some (.packets direction flow pps limit))
  | quiet {a : Sample K} {w' : Watch K} (before : w.last = some a) (pair : Comparable a s)
      (calm : ∀ key, Looping key a s → s.t - Dict.get w.overSince key a.t < (sustainS : ℕ)) (rate : w'.rate = w.rate)
      (last : w'.last = some s)
      (runs : ∀ key, Looping key a s → w'.overSince.lookup key = some (Dict.get w.overSince key a.t))
      (ended : ∀ key, ¬Looping key a s → w'.overSince.lookup key = none ∨
        a.count (.req key) = 0 ∧ w'.overSince.lookup key = w.overSince.lookup key)
      (recent : ∀ b ∈ w'.recent, b ∈ w.recent ∨ b = s) : Fed w s w' none

theorem feed_cases (w : Watch K) (s : Sample K) : Fed w s (w.feed s).1 (w.feed s).2 := by
  unfold Watch.feed
  cases before : w.last with
  | none => exact .first before rfl rfl rfl rfl
  | some a =>
    simp only
    by_cases together : s.t + s.u ≤ a.t - a.u
    · rw [if_pos together]
      exact .still before (sub_nonpos.mpr together)
    have apart : 0 < width a s := sub_pos.mpr (not_le.mp together)
    rw [if_neg together]
    cases back : wentBack a s with
    | true =>
      rw [if_pos rfl]
      exact .restarted before apart ((wentBack_iff a s).mp back) rfl rfl rfl rfl
    | false =>
      have pair : Comparable a s := by
        refine ⟨apart, fun key => not_lt.mp fun less => ?_⟩
        rw [(wentBack_iff a s).mpr ⟨key, less⟩] at back
        cases back
      rw [if_neg (by decide)]
      rcases requestsOver_cases (a := a) (s := s) (requestKeys_nodup a s) { w with last := some s } with
        ⟨w₁, same, rate, last, recent, runs, rest, calm⟩ | ⟨w₁, key, member, same, fast, long⟩
      · have listed {key : RequestKey} (looping : Looping key a s) : key ∈ requestKeys a s :=
          mem_requestKeys.mpr (.inr (Dict.mem_keys_of_get (looping.counted apart)))
        have calm (key : RequestKey) (looping : Looping key a s) :
            s.t - Dict.get w.overSince key a.t < (sustainS : ℕ) :=
          calm key (listed looping) ((looping_iff apart).mp looping)
        have ended (key : RequestKey) (still : ¬Looping key a s) : w₁.overSince.lookup key = none ∨
            a.count (.req key) = 0 ∧ w₁.overSince.lookup key = w.overSince.lookup key := by
          by_cases member : key ∈ requestKeys a s
          · rw [runs key member, if_pos (not_not.mp (mt (looping_iff apart).mpr still))]
            exact .inl rfl
          · refine .inr ⟨?_, rest key member⟩
            by_contra counted
            exact member (mem_requestKeys.mpr (.inl (Dict.mem_keys_of_get counted)))
        have runs (key : RequestKey) (looping : Looping key a s) :
            w₁.overSince.lookup key = some (Dict.get w.overSince key a.t) := by
          rw [runs key (listed looping), if_neg ((looping_iff apart).mp looping)]
        simp only [Watch.requests, same]
        obtain ⟨rate₂, last₂, over₂, recent₂, bursts⟩ := flows_spec w₁ s
        rcases flowed : w₁.flows s with ⟨w₂, _ | trip⟩
        · rw [flowed] at rate₂ last₂ over₂ recent₂
          obtain ⟨rate₃, last₃, over₃, recent₃, floods⟩ := packets_spec w₂ a s
          cases tripped : (w₂.packets a s).2 with
          | none =>
            refine .quiet before pair calm (by rw [rate₃, rate₂, rate]) (by rw [last₃, last₂, last])
              (fun key looping => by rw [over₃, over₂, runs key looping])
              (fun key still => by rw [over₃, over₂]; exact ended key still) fun b member => ?_
            rw [recent₃] at member
            rw [← recent]
            exact recent₂ b member
          | some trip =>
            obtain ⟨direction, flow, fpp, packets, pps, limit, now, rfl, above⟩ := floods trip tripped
            rw [rate₂, rate] at above
            exact .flooded before pair calm now above
        · obtain ⟨b, member, near, more⟩ := bursts trip (by rw [flowed])
          rw [recent] at member
          exact .burst before pair calm member near more
      · simp only [Watch.requests, same]
        exact .looped before pair ((looping_iff apart).mpr fast) long

omit [IsStrictOrderedRing K] [FloorRing K] in
theorem Fed.rate {w w' : Watch K} {s : Sample K} (fed : Fed w s w' none) : w'.rate = w.rate := by
  cases fed with
  | first fresh rate => exact rate
  | still => rfl
  | restarted before apart back rate => exact rate
  | quiet before pair calm rate => exact rate

end IemMixer.Guard
