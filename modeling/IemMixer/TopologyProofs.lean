import Mathlib.Data.Fintype.Card
import IemMixer.Lib.Except
import IemMixer.Topology

/-! What an accepted site's topology satisfies: ids are distinct, indices lead
where their names say, each mix hears whole only earlier mixes and as peers only
others, and no mix hears whole a mix that brings its own output back. Each pass
of `compile` has one lemma about what it returns and one about what it refuses. -/
namespace IemMixer.TopologyProofs
open Lib Proto

theorem checkIds_distinct (ids seen : List String) (ok : checkIds ids seen = .ok ()) :
    ids.Nodup ∧ ∀ id ∈ ids, id ∉ seen := by
  induction ids generalizing seen with
  | nil => simp
  | cons id rest ih =>
    simp only [checkIds, refused_ok_iff, Bool.not_eq_true', Bool.not_eq_false,
      List.contains_eq_mem, decide_eq_true_eq] at ok
    obtain ⟨-, fresh, later⟩ := ok
    obtain ⟨distinct, apart⟩ := ih _ later
    have absent : id ∉ rest := fun member => apart id member (by simp)
    refine ⟨List.nodup_cons.mpr ⟨absent, distinct⟩, ?_⟩
    intro other member
    rcases List.mem_cons.mp member with rfl | member
    · exact fresh
    · exact fun held => apart other member (by simp [held])

/-- The channels used: none of them 0, none twice. -/
def ChannelsOk (used : List UInt16) : Prop := (0 :: used).Nodup

theorem checkChannels_used (id : String) (map : UInt16) (chans used used' : List UInt16)
    (ok : checkChannels id map chans used = .ok used') (fresh : ChannelsOk used) :
    ChannelsOk used' ∧ used'.length = chans.length + used.length := by
  induction chans generalizing used with
  | nil =>
    cases ok
    exact ⟨fresh, by simp⟩
  | cons ch rest ih =>
    simp only [checkChannels, refused_ok_iff, Bool.or_eq_true, beq_iff_eq, decide_eq_true_eq,
      List.contains_eq_mem, not_or] at ok
    obtain ⟨⟨nonzero, -⟩, unused, later⟩ := ok
    have wider : ChannelsOk (ch :: used) := by
      simp only [ChannelsOk, List.nodup_cons, List.mem_cons, not_or] at fresh ⊢
      exact ⟨⟨Ne.symm nonzero, fresh.1⟩, unused, fresh.2⟩
    obtain ⟨kept, length⟩ := ih _ later wider
    exact ⟨kept, by simp [length]; omega⟩

/-- A card has at most 65,535 channels to use. -/
theorem channels_bound (used : List UInt16) (ok : ChannelsOk used) : used.length < 65536 := by
  have distinct : ((0 :: used).map UInt16.toFin).Nodup :=
    List.Nodup.map (fun a b same => UInt16.toFin_inj.mp same) ok
  have bound := distinct.length_le_card
  simp only [List.length_map, List.length_cons, Fintype.card_fin, UInt16.size] at bound
  omega

theorem compileInputs_spec (map : UInt16) (site : List SiteInput) (acc result : InputsAcc)
    (ok : compileInputs map site acc = .ok result) (fresh : ChannelsOk acc.used)
    (enough : acc.inputs.length ≤ acc.used.length) :
    result.inputs.map (·.id) = acc.inputs.map (·.id) ++ site.map (·.id) ∧
      result.inputs.length < 65536 := by
  induction site generalizing acc with
  | nil =>
    cases ok
    exact ⟨by simp, Nat.lt_of_le_of_lt enough (channels_bound _ fresh)⟩
  | cons input rest ih =>
    simp only [compileInputs, refused_ok_iff, bind_ok_iff] at ok
    obtain ⟨count, used, checked, -, later⟩ := ok
    obtain ⟨usedOk, length⟩ := checkChannels_used _ _ _ _ _ checked fresh
    have some_channel : 1 ≤ input.rx.length := by omega
    obtain ⟨ids, bound⟩ := ih _ later usedOk (by simp [length]; omega)
    exact ⟨by simp [ids], bound⟩

theorem groupMembers_ids (pos : BTreeMap String ℕ) (g : ℕ) (group : SiteGroup)
    (names : List String) (inputs inputs' : List InputNode) (members members' : List ℕ)
    (ok : groupMembers pos g group names inputs members = .ok (inputs', members')) :
    inputs'.map (·.id) = inputs.map (·.id) := by
  induction names generalizing inputs members with
  | nil =>
    cases ok
    rfl
  | cons name rest ih =>
    simp only [groupMembers] at ok
    split at ok
    · cases ok
    · rename_i i known
      split at ok
      · exact ih _ _ ok
      · rename_i node held
        rw [refused_ok_iff] at ok
        obtain ⟨bound, rfl⟩ := List.getElem?_eq_some_iff.mp held
        have same : (inputs.map (·.id)).set i (inputs[i].id) = inputs.map (·.id) := by
          have self := List.set_getElem_self (show i < (inputs.map (·.id)).length by simpa using bound)
          rwa [List.getElem_map] at self
        rw [ih _ _ ok.2, List.map_set, same]

theorem compileGroups_ids (pos : BTreeMap String ℕ) (g : ℕ) (site : List SiteGroup)
    (inputs inputs' : List InputNode) (groups groups' : List GroupNode)
    (ok : compileGroups pos g site inputs groups = .ok (inputs', groups')) :
    inputs'.map (·.id) = inputs.map (·.id) ∧
      groups'.map (·.id) = groups.map (·.id) ++ site.map (·.id) := by
  induction site generalizing g inputs groups with
  | nil =>
    cases ok
    simp
  | cons group rest ih =>
    simp only [compileGroups, refused_ok_iff, bind_ok_iff] at ok
    obtain ⟨-, ⟨middle, members⟩, filled, later⟩ := ok
    obtain ⟨inputIds, groupIds⟩ := ih _ _ _ later
    exact ⟨inputIds.trans (groupMembers_ids _ _ _ _ _ _ _ _ filled), by simp [groupIds]⟩

theorem heardMixes_spec (declared : BTreeMap String ℕ) (mix : SiteMix) (names : List String)
    (heard result : List ℕ) (ok : heardMixes declared mix names heard = .ok result)
    (once : heard.Nodup) :
    result.Nodup ∧ ∀ s ∈ result, s ∈ heard ∨ ∃ name ∈ names, declared[name]? = some s := by
  induction names generalizing heard with
  | nil =>
    cases ok
    exact ⟨once, fun s member => .inl member⟩
  | cons name rest ih =>
    simp only [heardMixes] at ok
    split at ok
    · cases ok
    · rename_i s known
      simp only [refused_ok_iff, List.contains_eq_mem, decide_eq_true_eq] at ok
      have wider : (heard ++ [s]).Nodup := by
        simpa only [List.concat_eq_append] using once.concat ok.1
      obtain ⟨distinct, origin⟩ := ih _ ok.2 wider
      refine ⟨distinct, fun other member => ?_⟩
      rcases origin other member with earlier | ⟨later, listed, found⟩
      · rcases List.mem_append.mp earlier with earlier | here
        · exact .inl earlier
        · rw [List.mem_singleton.mp here]
          exact .inr ⟨name, by simp, known⟩
      · exact .inr ⟨later, by simp [listed], found⟩

/-- Every index in `indices` is that of a mix `site` declares under one of `names`. -/
def Resolved (site : List SiteMix) (names : List String) (indices : List ℕ) : Prop :=
  ∀ s ∈ indices, ∃ name ∈ names, site[s]?.map (·.id) = some name

/-- A compiled mix against the site's: same id, each mix it hears whole earlier
and once, each peer another mix, once and not also heard whole. -/
structure NodeOk (site : List SiteMix) (m : ℕ) (mix : SiteMix) (node : MixNode) : Prop where
  id : node.id = mix.id
  heard : Resolved site mix.mixes node.mixes
  heardBefore : ∀ s ∈ node.mixes, s < m
  heardOnce : node.mixes.Nodup
  peers : Resolved site mix.peers node.peers
  peersOther : ∀ p ∈ node.peers, p < site.length ∧ p ≠ m ∧ p ∉ node.mixes
  peersOnce : node.peers.Nodup

/-- The compiled mixes are the site's first ones, each as `NodeOk` says. -/
def NodesOk (site : List SiteMix) (mixes : List MixNode) : Prop :=
  mixes.length ≤ site.length ∧
    ∀ m node, mixes[m]? = some node → ∃ mix, site[m]? = some mix ∧ NodeOk site m mix node

/-- Names lead to the mixes declared under them so far. -/
def DeclaredOk (site : List SiteMix) (declared : BTreeMap String ℕ) (m : ℕ) : Prop :=
  ∀ (name : String) (s : ℕ), declared[name]? = some s → s < m ∧ site[s]?.map (·.id) = some name

private theorem declared_insert {site : List SiteMix} {declared : BTreeMap String ℕ} {m : ℕ}
    {mix : SiteMix} (known : DeclaredOk site declared m) (here : site[m]? = some mix) :
    DeclaredOk site (declared.insert mix.id m) (m + 1) := by
  intro name s found
  rw [BTreeMap.getElem?_insert_eq] at found
  split at found
  · rename_i same
    cases found
    exact ⟨by omega, by simp [here, same]⟩
  · obtain ⟨earlier, named⟩ := known name s found
    exact ⟨by omega, named⟩

private theorem nodes_append {site : List SiteMix} {mixes : List MixNode} {mix : SiteMix}
    {node : MixNode} (before : NodesOk site mixes) (here : site[mixes.length]? = some mix)
    (added : NodeOk site mixes.length mix node) : NodesOk site (mixes ++ [node]) := by
  obtain ⟨room, -⟩ := List.getElem?_eq_some_iff.mp here
  refine ⟨by simp; omega, fun m other held => ?_⟩
  rw [List.getElem?_append] at held
  split at held
  · exact before.2 m other held
  · rename_i past
    obtain ⟨bound, rfl⟩ := List.getElem?_eq_some_iff.mp held
    have last : m = mixes.length := by simp at bound; omega
    subst last
    exact ⟨mix, here, by simpa using added⟩

theorem compileMixes_spec (map : UInt16) (site done rest : List SiteMix) (acc result : MixesAcc)
    (ok : compileMixes map done.length rest acc = .ok result) (split : site = done ++ rest)
    (length : acc.mixes.length = done.length) (nodes : NodesOk site acc.mixes)
    (known : DeclaredOk site acc.declared done.length) (fresh : ChannelsOk acc.used)
    (enough : acc.mixes.length ≤ acc.used.length) :
    result.mixes.length = site.length ∧ NodesOk site result.mixes ∧
      DeclaredOk site result.declared site.length ∧ result.mixes.length < 65536 := by
  induction rest generalizing done acc with
  | nil =>
    cases ok
    have whole : site.length = done.length := by simp [split]
    exact ⟨by omega, nodes, whole ▸ known, Nat.lt_of_le_of_lt enough (channels_bound _ fresh)⟩
  | cons mix rest ih =>
    simp only [compileMixes, refused_ok_iff, bind_ok_iff] at ok
    obtain ⟨count, used, checked, heard, resolved, later⟩ := ok
    have here : site[done.length]? = some mix := by simp [split]
    obtain ⟨once, origin⟩ := heardMixes_spec _ _ _ _ _ resolved List.nodup_nil
    have names : ∀ s ∈ heard, ∃ name ∈ mix.mixes, acc.declared[name]? = some s :=
      fun s member => (origin s member).resolve_left List.not_mem_nil
    have added : NodeOk site acc.mixes.length mix
        ⟨mix.id, (some acc.tx.length, if (mix.tx.length == 1) = true then none
          else some (acc.tx.length + 1)), mix.tx.length == 1, heard, [], false⟩ := by
      refine ⟨rfl, fun s member => ?_, fun s member => ?_, once, by simp [Resolved], by simp,
        List.nodup_nil⟩
      · obtain ⟨name, listed, found⟩ := names s member
        exact ⟨name, listed, (known name s found).2⟩
      · obtain ⟨name, listed, found⟩ := names s member
        exact length ▸ (known name s found).1
    obtain ⟨usedOk, usedLength⟩ := checkChannels_used _ _ _ _ _ checked fresh
    refine ih (done ++ [mix]) _ (by simpa only [List.length_append, List.length_singleton] using later) (by simp [split]) (by simp [length])
      (nodes_append nodes (length ▸ here) added) ?_ usedOk ?_
    · simpa using declared_insert known here
    · simp only [List.length_append, List.length_singleton, usedLength]
      omega

theorem resolvePeers_spec (declared : BTreeMap String ℕ) (mixes : List MixNode) (engineer m : ℕ)
    (mix : SiteMix) (names : List String) (peers result : List ℕ)
    (ok : resolvePeers declared mixes engineer m mix names peers = .ok result)
    (once : peers.Nodup) :
    result.Nodup ∧ ∀ s ∈ result, s ∈ peers ∨
      (∃ name ∈ names, declared[name]? = some s) ∧ s ≠ m ∧
        ∀ node, mixes[m]? = some node → s ∉ node.mixes := by
  induction names generalizing peers with
  | nil =>
    cases ok
    exact ⟨once, fun s member => .inl member⟩
  | cons name rest ih =>
    simp only [resolvePeers] at ok
    split at ok
    · cases ok
    · rename_i s chosen
      obtain ⟨known, allowed⟩ := Option.filter_eq_some_iff.mp chosen
      simp only [peerAllowed, Bool.and_eq_true, bne_iff_ne, Bool.not_eq_true',
        List.contains_eq_mem, decide_eq_false_iff_not] at allowed
      obtain ⟨⟨⟨⟨other, -⟩, -⟩, unheard⟩, fresh⟩ := allowed
      have wider : (peers ++ [s]).Nodup := by
        simpa only [List.concat_eq_append] using once.concat fresh
      obtain ⟨distinct, origin⟩ := ih _ ok wider
      refine ⟨distinct, fun p member => ?_⟩
      rcases origin p member with earlier | ⟨⟨later, listed, found⟩, facts⟩
      · rcases List.mem_append.mp earlier with earlier | here
        · exact .inl earlier
        · rw [List.mem_singleton.mp here]
          refine .inr ⟨⟨name, by simp, known⟩, other, fun node held => ?_⟩
          simpa [held] using unheard
      · exact .inr ⟨⟨later, by simp [listed], found⟩, facts⟩

private theorem nodes_modify {site : List SiteMix} {mixes : List MixNode} {mix : SiteMix} {m : ℕ}
    {peers : List ℕ} (nodes : NodesOk site mixes) (here : site[m]? = some mix)
    (resolved : Resolved site mix.peers peers)
    (other : ∀ p ∈ peers, p < site.length ∧ p ≠ m ∧ ∀ node, mixes[m]? = some node → p ∉ node.mixes)
    (once : peers.Nodup) :
    NodesOk site (mixes.modify m fun node => { node with peers }) := by
  refine ⟨by simpa using nodes.1, fun k node held => ?_⟩
  rw [List.getElem?_modify] at held
  by_cases at_m : m = k
  · subst at_m
    simp only [Option.map_eq_map, Option.map_eq_some_iff] at held
    obtain ⟨old, was, rfl⟩ := held
    obtain ⟨mix', found, before⟩ := nodes.2 m old was
    obtain rfl : mix = mix' := Option.some.inj (here.symm.trans found)
    refine ⟨mix, here, before.id, before.heard, before.heardBefore, before.heardOnce, resolved,
      fun p member => ?_, once⟩
    obtain ⟨bound, apart, unheard⟩ := other p member
    exact ⟨bound, apart, unheard old was⟩
  · simp only [Option.map_eq_map, if_neg at_m, Option.map_id_fun', id_eq] at held
    exact nodes.2 k node held

theorem compilePeers_spec (declared : BTreeMap String ℕ) (engineer : ℕ) (site done rest : List SiteMix)
    (mixes result : List MixNode)
    (ok : compilePeers declared engineer done.length rest mixes = .ok result)
    (split : site = done ++ rest) (nodes : NodesOk site mixes)
    (known : DeclaredOk site declared site.length) :
    result.length = mixes.length ∧ NodesOk site result := by
  induction rest generalizing done mixes with
  | nil =>
    cases ok
    exact ⟨rfl, nodes⟩
  | cons mix rest ih =>
    simp only [compilePeers, refused_ok_iff, bind_ok_iff] at ok
    obtain ⟨-, peers, resolved, later⟩ := ok
    have here : site[done.length]? = some mix := by simp [split]
    obtain ⟨once, origin⟩ := resolvePeers_spec _ _ _ _ _ _ _ _ resolved List.nodup_nil
    have facts := fun p member => (origin p member).resolve_left List.not_mem_nil
    have names : Resolved site mix.peers peers := by
      intro p member
      obtain ⟨⟨name, listed, found⟩, -⟩ := facts p member
      exact ⟨name, listed, (known name p found).2⟩
    have other : ∀ p ∈ peers, p < site.length ∧ p ≠ done.length ∧
        ∀ node, mixes[done.length]? = some node → p ∉ node.mixes := by
      intro p member
      obtain ⟨⟨name, -, found⟩, apart, unheard⟩ := facts p member
      exact ⟨(known name p found).1, apart, unheard⟩
    obtain ⟨length, kept⟩ := ih (done ++ [mix]) _
      (by simpa only [List.length_append, List.length_singleton] using later) (by simp [split])
      (nodes_modify nodes here names other once)
    exact ⟨by simpa using length, kept⟩

/-- Mix `m`'s whole output holds mix `x`'s own output: its own, its peers', or
what a mix it hears whole brings. -/
inductive Carries (mixes : List MixNode) : ℕ → ℕ → Prop where
  | own (m : ℕ) : Carries mixes m m
  | peer (node : MixNode) : mixes[m]? = some node → p ∈ node.peers → Carries mixes m p
  | heard (node : MixNode) : mixes[m]? = some node → h ∈ node.mixes → Carries mixes h x →
      Carries mixes m x

/-- The carries computed so far are the ones `Carries` says. -/
def CarriesOk (mixes : List MixNode) (carries : List (List ℕ)) : Prop :=
  ∀ (m : ℕ) (brought : List ℕ), carries[m]? = some brought → ∀ x, x ∈ brought ↔ Carries mixes m x

theorem bring_spec (name : ℕ → String) (mixes : List MixNode) (carries : List (List ℕ)) (m : ℕ)
    (heard own : List ℕ) (right : CarriesOk mixes carries) (earlier : ∀ h ∈ heard, h < carries.length) :
    (∀ result, bring name carries m heard own = .ok result →
      (∀ h ∈ heard, ¬ Carries mixes h m) ∧
        ∀ x, x ∈ result ↔ x ∈ own ∨ ∃ h ∈ heard, Carries mixes h x) ∧
    ∀ e, bring name carries m heard own = .error e →
      ∃ h ∈ heard, Carries mixes h m ∧ e = .hearsItselfBack (name m) (name h) := by
  induction heard generalizing own with
  | nil =>
    refine ⟨fun result ok => ?_, fun e failed => by cases failed⟩
    cases ok
    simp
  | cons h rest ih =>
    have bound : h < carries.length := earlier h (by simp)
    have found : carries[h]? = some carries[h] := List.getElem?_eq_getElem bound
    have brings := right h _ found
    simp only [bring, found]
    by_cases back : m ∈ carries[h]
    · have carried : Carries mixes h m := (brings m).mp back
      simp only [List.contains_eq_mem, decide_eq_true_eq, back, if_true]
      constructor
      · intro result ok
        cases ok
      · intro e failed
        cases failed
        exact ⟨h, by simp, carried, rfl⟩
    · have never : ¬ Carries mixes h m := fun carried => back ((brings m).mpr carried)
      simp only [List.contains_eq_mem, decide_eq_true_eq, back, if_false]
      obtain ⟨accepted, refused⟩ := ih (own ++ carries[h]) fun k member => earlier k (by simp [member])
      constructor
      · intro result ok
        obtain ⟨apart, members⟩ := accepted result ok
        refine ⟨by simpa using ⟨never, apart⟩, fun x => ?_⟩
        rw [members x, List.mem_append, brings x]
        simp only [List.mem_cons, exists_eq_or_imp, or_assoc]
      · intro e failed
        obtain ⟨k, member, carried, same⟩ := refused e failed
        exact ⟨k, by simp [member], carried, same⟩

theorem carries_iff {mixes : List MixNode} {m : ℕ} {node : MixNode}
    (held : mixes[m]? = some node) (x : ℕ) :
    Carries mixes m x ↔ x ∈ node.peers ++ [m] ∨ ∃ h ∈ node.mixes, Carries mixes h x := by
  constructor
  · intro carried
    cases carried with
    | own => simp
    | peer other found member =>
      cases held.symm.trans found
      simp [member]
    | heard other found member rest =>
      cases held.symm.trans found
      exact .inr ⟨_, member, rest⟩
  · rintro (own | ⟨h, member, rest⟩)
    · rcases List.mem_append.mp own with peer | self
      · exact .peer node held peer
      · rw [List.mem_singleton.mp self]
        exact .own m
    · exact .heard node held member rest

private theorem carries_append {mixes : List MixNode} {carries : List (List ℕ)} {own : List ℕ}
    (right : CarriesOk mixes carries) (added : ∀ x, x ∈ own ↔ Carries mixes carries.length x) :
    CarriesOk mixes (carries ++ [own]) := by
  intro m brought held
  rw [List.getElem?_append] at held
  split at held
  · exact right m brought held
  · obtain ⟨bound, rfl⟩ := List.getElem?_eq_some_iff.mp held
    have last : m = carries.length := by simp at bound; omega
    subst last
    simpa using added

/-- The carries pass accepts exactly the mixes none of which hears whole a mix
that brings its own output back. -/
theorem compileCarries_spec (name : ℕ → String) (mixes done rest : List MixNode)
    (carries : List (List ℕ)) (split : mixes = done ++ rest) (length : carries.length = done.length)
    (before : ∀ (m : ℕ) (node : MixNode), mixes[m]? = some node → ∀ h ∈ node.mixes, h < m)
    (right : CarriesOk mixes carries) :
    (∀ result, compileCarries name done.length rest carries = .ok result →
      ∀ (m : ℕ) (node : MixNode), done.length ≤ m → mixes[m]? = some node →
        ∀ h ∈ node.mixes, ¬ Carries mixes h m) ∧
    ∀ e, compileCarries name done.length rest carries = .error e →
      ∃ (m : ℕ) (node : MixNode) (h : ℕ), mixes[m]? = some node ∧ h ∈ node.mixes ∧
        Carries mixes h m ∧ e = .hearsItselfBack (name m) (name h) := by
  induction rest generalizing done carries with
  | nil =>
    refine ⟨fun _ _ m node late held => ?_, fun e failed => by cases failed⟩
    obtain ⟨bound, -⟩ := List.getElem?_eq_some_iff.mp held
    simp only [split, List.append_nil] at bound
    omega
  | cons node rest ih =>
    have here : mixes[done.length]? = some node := by simp [split]
    obtain ⟨accepted, refused⟩ := bring_spec name mixes carries done.length node.mixes
      (node.peers ++ [done.length]) right fun h member => length ▸ before _ _ here h member
    have next : ∀ own, bring name carries done.length node.mixes (node.peers ++ [done.length]) =
        .ok own → _ := fun own brought =>
      ih (done ++ [node]) (carries ++ [own]) (by simp [split]) (by simp [length])
        (carries_append right fun x => by
          rw [length, carries_iff here]
          exact (accepted own brought).2 x)
    simp only [List.length_append, List.length_singleton] at next
    constructor
    · intro result ok m other late held
      simp only [compileCarries, bind_ok_iff] at ok
      obtain ⟨own, brought, later⟩ := ok
      rcases Nat.lt_or_ge done.length m with past | at_most
      · exact (next own brought).1 result later m other past held
      · obtain rfl : m = done.length := by omega
        cases here.symm.trans held
        exact (accepted own brought).1
    · intro e failed
      simp only [compileCarries, bind_error_iff] at failed
      rcases failed with stopped | ⟨own, brought, later⟩
      · obtain ⟨h, member, carried, same⟩ := refused e stopped
        exact ⟨done.length, node, h, here, member, carried, same⟩
      · exact (next own brought).2 e later

/-- What holds of the names and indices of an arranged site. -/
structure ArrangedOk (site : Site) (a : Arranged) : Prop where
  inputIds : a.inputs.map (·.id) = site.inputs.map (·.id)
  groupIds : a.groups.map (·.id) = site.groups.map (·.id)
  mixCount : a.mixes.length = site.mixes.length
  nodes : NodesOk site.mixes a.mixes
  distinct : (site.inputs.map (·.id) ++ site.groups.map (·.id) ++ site.mixes.map (·.id)).Nodup
  engineer : a.engineer < a.mixes.length
  inputBound : a.inputs.length < 65536
  mixBound : a.mixes.length < 65536

private theorem findEngineer_bound (id : String) (outs : MixesAcc) (m : ℕ)
    (ok : findEngineer id outs = .ok m) : m < outs.mixes.length := by
  unfold findEngineer at ok
  split at ok
  · split at ok
    · rename_i stereo
      cases ok
      by_contra past
      simp [List.getElem?_eq_none (Nat.le_of_not_lt past)] at stereo
    · cases ok
  · cases ok

theorem arrange_spec (site : Site) (a : Arranged) (ok : arrange site = .ok a) :
    ArrangedOk site a := by
  simp only [arrange, bind_ok_iff] at ok
  obtain ⟨⟨⟩, ids, ins, inputsOk, ⟨inputs, groups⟩, groupsOk, outs, mixesOk, engineer, engineerOk,
    mixes, peersOk, done⟩ := ok
  cases done
  obtain ⟨inputIds, inputBound⟩ := compileInputs_spec _ _ _ _ inputsOk (by simp [ChannelsOk]) (by simp)
  obtain ⟨kept, groupIds⟩ := compileGroups_ids _ _ _ _ _ _ _ groupsOk
  obtain ⟨length, nodes, known, mixBound⟩ := compileMixes_spec _ site.mixes [] site.mixes _ _ mixesOk
    rfl rfl ⟨by simp, by simp⟩ (fun name s found => by simp at found) (by simp [ChannelsOk]) (by simp)
  obtain ⟨peersLength, peersNodes⟩ :=
    compilePeers_spec _ _ site.mixes [] site.mixes _ _ peersOk rfl nodes known
  have inputsLength : inputs.length = ins.inputs.length := by simpa using congrArg List.length kept
  exact
    { inputIds := by simpa using kept.trans inputIds
      groupIds := by simpa using groupIds
      mixCount := peersLength.trans length
      nodes := peersNodes
      distinct := (checkIds_distinct _ _ ids).1
      engineer := by
        have bound := findEngineer_bound _ _ _ engineerOk
        simpa [peersLength] using bound
      inputBound := by simpa [inputsLength] using inputBound
      mixBound := by simpa [peersLength] using mixBound }

/-- What the engine relies on in a compiled topology. -/
structure WellFormed (t : Topology) : Prop where
  ids : (t.inputs.map (·.id) ++ t.groups.map (·.id) ++ t.mixes.map (·.id)).Nodup
  inputMap : t.inputIndexMap = indexOf (t.inputs.map (·.id))
  groupMap : t.groupIndexMap = indexOf (t.groups.map (·.id))
  mixMap : t.mixIndexMap = indexOf (t.mixes.map (·.id))
  order : t.order = renderOrder t.mixes
  shadow : ∀ (m : ℕ) (node : MixNode), t.mixes[m]? = some node →
    node.shadow = (t.mixes.any (·.peers.contains m) && !node.hearsNothing)
  heardBefore : ∀ (m : ℕ) (node : MixNode), t.mixes[m]? = some node → ∀ s ∈ node.mixes, s < m
  heardOnce : ∀ node ∈ t.mixes, node.mixes.Nodup
  peersOther : ∀ (m : ℕ) (node : MixNode), t.mixes[m]? = some node →
    ∀ p ∈ node.peers, p < t.mixes.length ∧ p ≠ m ∧ p ∉ node.mixes
  peersOnce : ∀ node ∈ t.mixes, node.peers.Nodup
  engineer : t.engineer < t.mixes.length
  inputBound : t.inputs.length < 65536
  mixBound : t.mixes.length < 65536

/-- No mix hears whole a mix that brings its own output back. -/
def NeverBack (mixes : List MixNode) : Prop :=
  ∀ (m : ℕ) (node : MixNode), mixes[m]? = some node → ∀ h ∈ node.mixes, ¬ Carries mixes h m

@[simp] theorem markShadows_length (mixes : List MixNode) :
    (markShadows mixes).length = mixes.length := by
  simp [markShadows]

theorem markShadows_getElem? (mixes : List MixNode) (m : ℕ) :
    (markShadows mixes)[m]? = mixes[m]?.map fun node =>
      { node with shadow := mixes.any (·.peers.contains m) && !node.hearsNothing } := by
  rw [markShadows, List.getElem?_map, List.getElem?_zipIdx, Option.map_map, Nat.zero_add]
  rfl

private theorem markShadows_any_peer (mixes : List MixNode) (m : ℕ) :
    (markShadows mixes).any (·.peers.contains m) = mixes.any (·.peers.contains m) := by
  have peers : (markShadows mixes).map (·.peers) = mixes.map (·.peers) := by
    apply List.ext_getElem?
    intro k
    simp only [List.getElem?_map, markShadows_getElem?, Option.map_map]
    rfl
  have same := congrArg (List.any · (·.contains m)) peers
  simpa only [List.any_map, Function.comp_def] using same

@[simp] theorem markShadows_ids (mixes : List MixNode) :
    (markShadows mixes).map (·.id) = mixes.map (·.id) := by
  apply List.ext_getElem?
  intro k
  simp only [List.getElem?_map, markShadows_getElem?, Option.map_map]
  rfl

private theorem markShadows_held {mixes : List MixNode} {m : ℕ} {node : MixNode}
    (held : (markShadows mixes)[m]? = some node) :
    ∃ old, mixes[m]? = some old ∧ node = { old with
      shadow := mixes.any (·.peers.contains m) && !old.hearsNothing } := by
  rw [markShadows_getElem?, Option.map_eq_some_iff] at held
  obtain ⟨old, was, rfl⟩ := held
  exact ⟨old, was, rfl⟩

/-- A shadow changes nothing about what a mix brings. -/
theorem carries_markShadows (mixes : List MixNode) (m x : ℕ) :
    Carries (markShadows mixes) m x ↔ Carries mixes m x := by
  constructor
  · intro carried
    induction carried with
    | own m => exact .own m
    | peer node held member =>
      obtain ⟨old, was, rfl⟩ := markShadows_held held
      exact .peer old was member
    | heard node held member _ ih =>
      obtain ⟨old, was, rfl⟩ := markShadows_held held
      exact .heard old was member ih
  · intro carried
    induction carried with
    | own m => exact .own m
    | @peer k _ node held member =>
      have marked := markShadows_getElem? mixes k
      rw [held, Option.map_some] at marked
      exact .peer _ marked member
    | @heard k _ _ node held member _ ih =>
      have marked := markShadows_getElem? mixes k
      rw [held, Option.map_some] at marked
      exact .heard _ marked member ih

private theorem mixIds {site : Site} {a : Arranged} (ok : ArrangedOk site a) :
    a.mixes.map (·.id) = site.mixes.map (·.id) := by
  apply List.ext_getElem?
  intro m
  rcases Nat.lt_or_ge m a.mixes.length with bound | past
  · obtain ⟨mix, found, node⟩ := ok.nodes.2 m _ (List.getElem?_eq_getElem bound)
    simp only [List.getElem?_map, found, List.getElem?_eq_getElem bound, Option.map_some, node.id]
  · have count := ok.mixCount
    simp [List.getElem?_eq_none past, List.getElem?_eq_none (show site.mixes.length ≤ m by omega)]

theorem topology_wellFormed (digest : TopologyInfo → String) (site : Site) (a : Arranged)
    (ok : ArrangedOk site a) : WellFormed (a.topology digest) := by
  have node_of : ∀ (m : ℕ) (node : MixNode), (markShadows a.mixes)[m]? = some node →
      ∃ mix, NodeOk site.mixes m mix node := by
    intro m node held
    obtain ⟨old, was, rfl⟩ := markShadows_held held
    obtain ⟨mix, -, kept⟩ := ok.nodes.2 m old was
    exact ⟨mix, kept.id, kept.heard, kept.heardBefore, kept.heardOnce, kept.peers, kept.peersOther,
      kept.peersOnce⟩
  have node_mem : ∀ node ∈ markShadows a.mixes, ∃ m mix, NodeOk site.mixes m mix node := by
    intro node member
    obtain ⟨m, held⟩ := List.mem_iff_getElem?.mp member
    exact ⟨m, node_of m node held⟩
  constructor
  case ids =>
    simpa [Arranged.topology, ok.inputIds, ok.groupIds, mixIds ok] using ok.distinct
  case inputMap => rfl
  case groupMap => rfl
  case mixMap => rfl
  case order => rfl
  case shadow =>
    intro m node held
    obtain ⟨old, -, rfl⟩ := markShadows_held held
    exact congrArg (· && !old.hearsNothing) (markShadows_any_peer a.mixes m).symm
  case heardBefore =>
    intro m node held
    obtain ⟨mix, kept⟩ := node_of m node held
    exact kept.heardBefore
  case heardOnce =>
    intro node member
    obtain ⟨m, mix, kept⟩ := node_mem node member
    exact kept.heardOnce
  case peersOther =>
    intro m node held p member
    obtain ⟨mix, kept⟩ := node_of m node held
    have facts := kept.peersOther p member
    exact ⟨by simpa [Arranged.topology, ok.mixCount] using facts.1, facts.2⟩
  case peersOnce =>
    intro node member
    obtain ⟨m, mix, kept⟩ := node_mem node member
    exact kept.peersOnce
  case engineer => simpa [Arranged.topology] using ok.engineer
  case inputBound => exact ok.inputBound
  case mixBound => simpa [Arranged.topology] using ok.mixBound

/-- The site was compiled: its topology, with the run of `compile` that made it. -/
structure Compiled (digest : TopologyInfo → String) where
  site : Site
  topo : Topology
  accepted : compile digest site = .ok topo

/-- Two sets that hear each other, and the engineer who hears both whole. -/
def duet : Site where
  channels := 8
  engineer := "eng"
  inputs := [{ id := "voice", rx := [1] }]
  mixes :=
    [{ id := "anna", tx := [1, 2], peers := ["ben"] },
      { id := "ben", tx := [3, 4], peers := ["anna"] },
      { id := "eng", tx := [5, 6], mixes := ["anna", "ben"] }]

def duetCompiled : Compiled fun _ => "" where
  site := duet
  topo := (compile (fun _ => "") duet).toOption.get rfl
  accepted := rfl

theorem compile_spec (digest : TopologyInfo → String) (c : Compiled digest) :
    WellFormed c.topo ∧ NeverBack c.topo.mixes := by
  have ok := c.accepted
  simp only [compile, bind_ok_iff] at ok
  obtain ⟨a, arranged, carries, checked, done⟩ := ok
  have right := arrange_spec _ _ arranged
  obtain ⟨accepted, -⟩ := compileCarries_spec _ a.mixes [] a.mixes [] rfl rfl
    (fun m node held => by
      obtain ⟨mix, -, kept⟩ := right.nodes.2 m node held
      exact kept.heardBefore)
    (fun m brought held => by simp at held)
  have same : a.topology digest = c.topo := Except.ok.inj done
  rw [← same]
  refine ⟨topology_wellFormed digest _ _ right, fun m node held h member carried => ?_⟩
  obtain ⟨old, was, rfl⟩ := markShadows_held held
  exact accepted _ checked m old (Nat.zero_le _) was h member ((carries_markShadows _ _ _).mp carried)

/-- The pass does not refuse with `hearsItselfBack`. -/
def SilentOnBack {α : Type} (r : Except SiteError α) : Prop := ∀ a b, r ≠ .error (.hearsItselfBack a b)

private theorem silent_bind {α β : Type} {x : Except SiteError α} {f : α → Except SiteError β}
    (first : SilentOnBack x) (then_ : ∀ a, SilentOnBack (f a)) : SilentOnBack (x >>= f) := by
  intro a b failed
  rcases bind_error_iff.mp failed with stopped | ⟨v, -, stopped⟩
  · exact first a b stopped
  · exact then_ v a b stopped

private theorem checkIds_silent (ids seen : List String) : SilentOnBack (checkIds ids seen) := by
  fun_induction checkIds ids seen <;> simp_all [SilentOnBack]

private theorem checkChannels_silent (id : String) (map : UInt16) (chans used : List UInt16) :
    SilentOnBack (checkChannels id map chans used) := by
  fun_induction checkChannels id map chans used <;> simp_all [SilentOnBack]

private theorem compileInputs_silent (map : UInt16) (site : List SiteInput) (acc : InputsAcc) :
    SilentOnBack (compileInputs map site acc) := by
  induction site generalizing acc with
  | nil => simp [SilentOnBack, compileInputs]
  | cons input rest ih =>
    rw [compileInputs]
    split
    · simp [SilentOnBack]
    · refine silent_bind (checkChannels_silent _ _ _ _) fun used => ?_
      split
      · simp [SilentOnBack]
      · exact ih _

private theorem groupMembers_silent (pos : BTreeMap String ℕ) (g : ℕ) (group : SiteGroup)
    (names : List String) (inputs : List InputNode) (members : List ℕ) :
    SilentOnBack (groupMembers pos g group names inputs members) := by
  fun_induction groupMembers pos g group names inputs members <;> simp_all [SilentOnBack]

private theorem compileGroups_silent (pos : BTreeMap String ℕ) (g : ℕ) (site : List SiteGroup)
    (inputs : List InputNode) (groups : List GroupNode) :
    SilentOnBack (compileGroups pos g site inputs groups) := by
  induction site generalizing g inputs groups with
  | nil => simp [SilentOnBack, compileGroups]
  | cons group rest ih =>
    rw [compileGroups]
    split
    · simp [SilentOnBack]
    · exact silent_bind (groupMembers_silent _ _ _ _ _ _) fun filled => ih _ _ _

private theorem heardMixes_silent (declared : BTreeMap String ℕ) (mix : SiteMix)
    (names : List String) (heard : List ℕ) : SilentOnBack (heardMixes declared mix names heard) := by
  fun_induction heardMixes declared mix names heard <;> simp_all [SilentOnBack]

private theorem compileMixes_silent (map : UInt16) (m : ℕ) (site : List SiteMix) (acc : MixesAcc) :
    SilentOnBack (compileMixes map m site acc) := by
  induction site generalizing m acc with
  | nil => simp [SilentOnBack, compileMixes]
  | cons mix rest ih =>
    rw [compileMixes]
    split
    · simp [SilentOnBack]
    · exact silent_bind (checkChannels_silent _ _ _ _) fun used =>
        silent_bind (heardMixes_silent _ _ _ _) fun heard => ih _ _

private theorem findEngineer_silent (id : String) (outs : MixesAcc) :
    SilentOnBack (findEngineer id outs) := by
  unfold findEngineer
  split
  · split <;> simp [SilentOnBack]
  · simp [SilentOnBack]

private theorem resolvePeers_silent (declared : BTreeMap String ℕ) (mixes : List MixNode)
    (engineer m : ℕ) (mix : SiteMix) (names : List String) (peers : List ℕ) :
    SilentOnBack (resolvePeers declared mixes engineer m mix names peers) := by
  fun_induction resolvePeers declared mixes engineer m mix names peers <;> simp_all [SilentOnBack]

private theorem compilePeers_silent (declared : BTreeMap String ℕ) (engineer m : ℕ)
    (site : List SiteMix) (mixes : List MixNode) :
    SilentOnBack (compilePeers declared engineer m site mixes) := by
  induction site generalizing m mixes with
  | nil => simp [SilentOnBack, compilePeers]
  | cons mix rest ih =>
    rw [compilePeers]
    split
    · simp [SilentOnBack]
    · exact silent_bind (resolvePeers_silent _ _ _ _ _ _ _) fun peers => ih _ _

theorem arrange_silent (site : Site) : SilentOnBack (arrange site) := by
  refine silent_bind (checkIds_silent _ _) fun _ => ?_
  refine silent_bind (compileInputs_silent _ _ _) fun ins => ?_
  refine silent_bind (compileGroups_silent _ _ _ _ _) fun grouped => ?_
  refine silent_bind (compileMixes_silent _ _ _ _) fun outs => ?_
  refine silent_bind (findEngineer_silent _ _) fun engineer => ?_
  refine silent_bind (compilePeers_silent _ _ _ _ _) fun mixes => ?_
  simp [SilentOnBack, pure, Except.pure]

/-- A site refused with `hearsItselfBack` has every name resolved, and the mix
named first hears whole one that brings its own output back. -/
theorem compile_back (digest : TopologyInfo → String) (site : Site) (a b : String)
    (refused : compile digest site = .error (.hearsItselfBack a b)) :
    ∃ arranged m node h heard, arrange site = .ok arranged ∧
      arranged.mixes[m]? = some node ∧ node.id = a ∧ h ∈ node.mixes ∧
      arranged.mixes[h]? = some heard ∧ heard.id = b ∧ Carries arranged.mixes h m := by
  simp only [compile, bind_error_iff] at refused
  rcases refused with stopped | ⟨arranged, ok, later⟩
  · exact absurd stopped (arrange_silent site a b)
  have right := arrange_spec _ _ ok
  rcases later with stopped | ⟨carries, -, done⟩
  · obtain ⟨-, refusal⟩ := compileCarries_spec _ arranged.mixes [] arranged.mixes [] rfl rfl
      (fun m node held => by
        obtain ⟨mix, -, kept⟩ := right.nodes.2 m node held
        exact kept.heardBefore)
      (fun m brought held => by simp at held)
    obtain ⟨m, node, h, held, member, carried, same⟩ := refusal _ stopped
    obtain ⟨mix, found, nodeOk⟩ := right.nodes.2 m node held
    obtain ⟨bound, -⟩ := List.getElem?_eq_some_iff.mp held
    have hBound : h < arranged.mixes.length := Nat.lt_trans (nodeOk.heardBefore h member) bound
    obtain ⟨heard, found', heardOk⟩ := right.nodes.2 h _ (List.getElem?_eq_getElem hBound)
    simp only [found, found', Option.map_some, Option.getD_some, SiteError.hearsItselfBack.injEq]
      at same
    exact ⟨arranged, m, node, h, _, ok, held, nodeOk.id.trans same.1.symm, member,
      List.getElem?_eq_getElem hBound, heardOk.id.trans same.2.symm, carried⟩
  · cases done

end IemMixer.TopologyProofs
