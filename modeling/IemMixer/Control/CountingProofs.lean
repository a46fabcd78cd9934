import IemMixer.Control.Counting
import IemMixer.Rt.Targets

/-! A reset of the limiter statistics is durable as long as every save after it takes the
counters from a meter frame the RT thread wrote after it applied the reset. -/
namespace IemMixer.Control
open Lib Proto Rt Persist

/-! ### Only meter frames move the counters -/

section
variable (env : Outside)

@[simp] theorem counters_ask (c : Control) : c.ask.counters = c.counters := rfl

@[simp] theorem counters_dropPeer (c : Control) (id : ℕ) : (c.dropPeer env id).counters = c.counters := by
  unfold dropPeer
  dsimp only
  split
  · rfl
  · rfl

@[simp] theorem counters_write (c : Control) (id : ℕ) (msg : EngineMsg) :
    (c.write env id msg).counters = c.counters := by
  unfold write
  split
  · rfl
  · split
    · rfl
    · simp

@[simp] theorem counters_send (c : Control) (id : ℕ) (msg : EngineMsg) :
    (c.send env id msg).counters = c.counters := by
  unfold send
  split
  · simp
  · rfl

theorem counters_foldl {α : Type} (f : Control → α → Control) (xs : List α)
    (each : ∀ c x, (f c x).counters = c.counters) (c : Control) : (xs.foldl f c).counters = c.counters := by
  induction xs generalizing c with
  | nil => rfl
  | cons x rest ih => rw [List.foldl_cons, ih, each]

@[simp] theorem counters_broadcast (c : Control) (msg : EngineMsg) :
    (c.broadcast env msg).counters = c.counters := by
  unfold broadcast
  split
  · exact counters_foldl _ _ (fun c id => counters_write env c id msg) c
  · rfl

@[simp] theorem counters_reply (c : Control) (id r : ℕ) (error : Option ErrorBody) :
    (c.reply env id r error).counters = c.counters := counters_send env c id _

@[simp] theorem counters_alarm (c : Control) (code : AlarmCode) (detail : String) :
    (c.alarm env code detail).counters = c.counters := counters_broadcast env _ _

@[simp] theorem counters_supersede (c : Control) (holder : Option ℕ) (id : ℕ) :
    (c.supersede env holder id).counters = c.counters := by
  unfold supersede
  split
  · rfl
  · simp

@[simp] theorem counters_seat (c : Control) (id : ℕ) (role : Role) :
    (c.seat env id role).counters = c.counters := by
  cases role <;> simp [seat]

@[simp] theorem counters_welcome (c : Control) (id proto : ℕ) (role : Role) :
    (c.welcome env id proto role).counters = c.counters := by
  unfold welcome
  rw [counters_foldl _ _ fun c alarm => counters_send env c id _]
  simp

@[simp] theorem counters_hello (c : Control) (id theirs : ℕ) (role : Role) :
    (c.hello env id theirs role).counters = c.counters := by
  unfold hello
  split
  · simp
  · dsimp only
    split
    · simp
    · simp

@[simp] theorem counters_flushLoop (c : Control) (groups : List (List RtOp)) :
    (c.flushLoop env groups).counters = c.counters := by
  induction groups generalizing c with
  | nil => rfl
  | cons group rest ih =>
    simp only [flushLoop]
    split
    · rfl
    · exact ih _

@[simp] theorem counters_flushRt (c : Control) : (c.flushRt env).counters = c.counters :=
  counters_flushLoop env c c.pending

@[simp] theorem counters_publish (c : Control) (out : Outcome) (origin : Option ℕ) :
    (c.publish env out origin).counters = c.counters := by
  unfold publish
  dsimp only
  split
  · simp
  · simp

@[simp] theorem counters_save (c : Control) : (c.save env).counters = c.counters := by
  unfold save
  dsimp only
  split
  · rename_i committed stood
    cases committed.orphaned <;> simp
  · simp

@[simp] theorem counters_note (c : Control) (cmd : Cmd) : (c.note env cmd).counters = c.counters := by
  unfold note
  split <;> rfl

@[simp] theorem counters_perform (c : Control) (id : ℕ) (effect : Effect) :
    (c.perform env id effect).counters = c.counters := by
  cases effect <;> simp [perform]

@[simp] theorem counters_answer (c : Control) (id r : ℕ) (origin : Option ℕ) (cmd : Cmd) (out : Outcome)
    (core : Core) : (c.answer env id r origin cmd out core).counters = c.counters := by
  simp [answer]

@[simp] theorem counters_tickStatus (c : Control) (now : ℕ) :
    (c.tickStatus env now).counters = c.counters := by
  unfold tickStatus
  split
  · simp
  · rfl

theorem counters_tickMeters (c : Control) (frame : Option MeterFrame) :
    (c.tickMeters env frame).counters = (frame.map (·.active)).getD c.counters := by
  cases frame <;> simp [tickMeters]

@[simp] theorem counters_tickSave (c : Control) (now : ℕ) :
    (c.tickSave env now).counters = c.counters := by
  unfold tickSave
  split
  · simp
  · rfl

@[simp] theorem counters_stopAsked (c : Control) (p : Pulse) : (c.stopAsked p).counters = c.counters := by
  unfold stopAsked
  split <;> rfl

variable [Libm]

@[simp] theorem counters_tickSolos (c : Control) (now : ℕ) :
    (c.tickSolos env now).counters = c.counters := by
  unfold tickSolos
  split
  · split
    · simp
    · rfl
  · rfl

omit [Libm] in
@[simp] theorem counters_tickTest (c : Control) (now : ℕ) :
    (c.tickTest env now).counters = c.counters := by
  unfold tickTest
  split
  · split
    · simp
    · rfl
  · rfl

theorem counters_beforeSave (c : Control) (p : Pulse) :
    (c.beforeSave env p).counters = (p.meters.map (·.active)).getD c.counters := by
  simp [beforeSave, counters_tickMeters]

@[simp] theorem counters_frame (c : Control) (id : ℕ)
    (parsed : Except (Option ℕ × ErrorBody) ClientMsg) :
    (c.frame env id parsed).counters = c.counters := by
  unfold frame
  split
  · rfl
  · split
    · simp
    · simp
    · unfold request
      split
      · simp
      · split <;> simp

/-! ### What a step of the loop saves and reads -/

omit [Libm] in
theorem perform_published (c : Control) (id : ℕ) (effect : Effect) :
    (c.perform env id effect).published = c.published := by
  cases effect with
  | none => rfl
  | sendState => exact (sends_send env c id _).published
  | sendTopology => exact (sends_send env c id _).published
  | save =>
    rcases sends_save env c with ⟨committed, -, sends⟩ | ⟨e, -, sends⟩
    · exact sends.published
    · exact sends.published
  | shutdown => rfl
  | imported => exact (sends_broadcast env c _).published

theorem saveAt_frame {l : Loop} {id r : ℕ} {origin : Option ℕ} {cmd : Cmd} {c : Control}
    (asked : saveAt env l (.frame id (.ok (.request r origin cmd))) = some c) :
    Progress l.control c ∧ c.counters = l.control.counters := by
  simp only [saveAt] at asked
  split at asked
  · cases asked
  · rename_i role here
    split at asked
    · rename_i out core allowed accepted
      split at asked
      · cases asked
        obtain ⟨now, sends⟩ := sends_answer env l.control id r origin cmd out core
        have taken : Taken l.control role cmd out (l.control.answer env id r origin cmd out core) :=
          ⟨allowed, core, now, accepted, sends⟩
        exact ⟨taken.progress, counters_answer env _ id r origin cmd out core⟩
      · cases asked
    · cases asked

theorem saveAt_tick {l : Loop} {p : Pulse} {c : Control} (asked : saveAt env l (.tick p) = some c) :
    Progress l.control c ∧ c.counters = (p.meters.map (·.active)).getD l.control.counters := by
  simp only [saveAt] at asked
  split at asked
  · cases asked
    have flushed : Progress l.control (l.control.flushRt env) :=
      (sends_flushLoop (fun _ => True) env _ _).toQuiet.progress
    refine ⟨flushed.trans (progress_beforeSave env _ p), ?_⟩
    rw [counters_beforeSave, counters_flushRt]
  · cases asked

omit [Libm] in
theorem flushRt_shutdown (c : Control) : (c.flushRt env).shutdown = c.shutdown :=
  (sends_flushLoop (fun _ => True) env c c.pending).shutdown

/-- A loop that goes on after a tick read the meters. -/
theorem readsMeters_tick {l : Loop} {p : Pulse} (goesOn : (l.control.tick env p).2 = none) :
    readsMeters l (.tick p) = true := by
  unfold tick at goesOn
  cases faulted : p.faulted with
  | true => simp [faulted] at goesOn
  | false =>
    cases ending : p.ending with
    | some why => cases why <;> simp [faulted, ending, stopAsked] at goesOn
    | none =>
      cases stopping : l.control.shutdown with
      | true => simp [faulted, ending, stopAsked, flushRt_shutdown, stopping] at goesOn
      | false => simp [readsMeters, faulted, ending, stopping]

/-- A tick on the loop's way out saves what it has, without a look at the meters. -/
theorem savesAt_tick (l : Loop) (p : Pulse) :
    (readsMeters l (.tick p) = true ∧ savesAt env l (.tick p) = saveAt env l (.tick p)) ∨
      (readsMeters l (.tick p) = false ∧ ∃ c, savesAt env l (.tick p) = some c ∧
        Progress l.control c ∧ c.counters = l.control.counters) := by
  have flushed : Progress l.control (l.control.flushRt env) :=
    (sends_flushLoop (fun _ => True) env _ _).toQuiet.progress
  simp only [savesAt, readsMeters]
  cases faulted : p.faulted with
  | true =>
    right
    refine ⟨rfl, _, if_pos rfl, flushed.trans (sends_broadcast env _ .status).toQuiet.progress, ?_⟩
    rw [counters_broadcast, counters_flushRt]
  | false =>
    cases ending : p.ending with
    | some why =>
      cases why with
      | backend why =>
        right
        exact ⟨rfl, _, rfl, flushed, counters_flushRt env _⟩
      | stop =>
        right
        have stopped : ((l.control.flushRt env).stopAsked p).shutdown = true := by simp [stopAsked, ending]
        refine ⟨rfl, _, if_pos stopped, flushed.trans ?_, by simp⟩
        exact ⟨[], by simp [stopAsked, ending, Core.run], by simp [stopAsked, ending, Core.emitted]⟩
    | none =>
      have same : (l.control.flushRt env).stopAsked p = l.control.flushRt env := by simp [stopAsked, ending]
      simp only [same, flushRt_shutdown]
      cases l.control.shutdown with
      | true =>
        right
        exact ⟨rfl, _, rfl, flushed, counters_flushRt env _⟩
      | false =>
        left
        exact ⟨rfl, rfl⟩

omit [Libm] in
private theorem release_accepted (c : Control) (reason : String) :
    (c.release env reason).accepted = c.accepted := (sends_broadcast env c _).accepted

omit [Libm] in
private theorem fadeOut_accepted (c : Control) : (c.fadeOut env).accepted = c.accepted := by
  have looks : ∀ (n : ℕ) (c : Control),
      ((List.range n).foldl (fun c _ => c.flushRt env) c).accepted = c.accepted := by
    intro n
    induction n with
    | zero => exact fun c => rfl
    | succ n ih =>
      intro c
      rw [List.range_succ, List.foldl_append]
      exact (sends_flushLoop (fun _ => True) env _ _).accepted.trans (ih c)
  exact looks _ _

omit [Libm] in
theorem save_accepted (c : Control) :
    (c.save env).accepted = c.accepted ∨ (c.save env).accepted = c.persisted env := by
  rcases sends_save env c with ⟨committed, -, sends⟩ | ⟨e, -, sends⟩
  · exact .inr sends.accepted
  · exact .inl sends.accepted

theorem request_accepted (l : Loop) (id r : ℕ) (origin : Option ℕ) (cmd : Cmd) {role : Option Role}
    (here : l.control.peers[id]? = some role) :
    (l.control.request env id role r origin cmd).accepted = l.control.accepted ∨
      ∃ c, saveAt env l (.frame id (.ok (.request r origin cmd))) = some c ∧
        (l.control.request env id role r origin cmd).accepted = c.persisted env := by
  unfold request
  cases allowed : refusal role cmd with
  | some error => exact .inl (sends_reply env _ id r _).accepted
  | none =>
    cases accepted : l.control.core.apply cmd with
    | error e core => exact .inl (sends_reply env _ id r _).accepted
    | ok out core =>
      obtain ⟨now, sends⟩ := sends_answer env l.control id r origin cmd out core
      have kept : (l.control.answer env id r origin cmd out core).accepted = l.control.accepted := sends.accepted
      simp only
      cases effect : out.effect with
      | none => exact .inl kept
      | sendState => exact .inl ((sends_send env _ id _).accepted.trans kept)
      | sendTopology => exact .inl ((sends_send env _ id _).accepted.trans kept)
      | save =>
        rcases save_accepted env (l.control.answer env id r origin cmd out core) with same | saved
        · exact .inl (same.trans kept)
        · exact .inr ⟨_, by simp [saveAt, here, allowed, accepted, effect], saved⟩
      | shutdown => exact .inl kept
      | imported => exact .inl ((sends_broadcast env _ _).accepted.trans kept)

theorem beforeSave_accepted (c : Control) (p : Pulse) : (c.beforeSave env p).accepted = c.accepted := by
  have status : ((c.tickMeters env p.meters).tickStatus env p.now).accepted = c.accepted :=
    (sends_tickStatus env _ p.now).accepted.trans (sends_tickMeters env c p.meters).accepted
  have solos : ∀ c : Control, (c.tickSolos env p.now).accepted = c.accepted := by
    intro c
    rcases tickSolos_cases env c p.now with ⟨-, same⟩ | ⟨-, now', sends⟩
    · rw [same]
    · exact sends.accepted
  have test : ∀ c : Control, (c.tickTest env p.now).accepted = c.accepted := by
    intro c
    rcases tickTest_cases env c p.now with same | ⟨now', sends⟩
    · rw [same]
    · exact sends.accepted
  exact (test _).trans ((solos _).trans status)

theorem tick_accepted (l : Loop) (p : Pulse) :
    (l.control.tick env p).1.accepted = l.control.accepted ∨
      ∃ c, savesAt env l (.tick p) = some c ∧ (l.control.tick env p).1.accepted = c.persisted env := by
  have flushed : (l.control.flushRt env).accepted = l.control.accepted :=
    (sends_flushLoop (fun _ => True) env _ _).accepted
  have given : ∀ {c c' : Control}, c.accepted = l.control.accepted → c'.accepted = (c.save env).accepted →
      savesAt env l (.tick p) = some c → c'.accepted = l.control.accepted ∨
        ∃ c, savesAt env l (.tick p) = some c ∧ c'.accepted = c.persisted env := by
    intro c c' kept same asked
    rcases save_accepted env c with old | saved
    · exact .inl (same.trans (old.trans kept))
    · exact .inr ⟨c, asked, same.trans saved⟩
  unfold savesAt tick at *
  by_cases faulted : p.faulted = true
  · simp only [faulted, if_true] at given ⊢
    refine given ((sends_broadcast env _ .status).accepted.trans flushed) ?_ rfl
    exact (release_accepted env _ _).trans (sends_alarm env _ _ _).accepted
  · simp only [faulted] at given ⊢
    cases ending : p.ending with
    | some why =>
      simp only [ending] at given
      cases why with
      | backend why => exact given flushed (release_accepted env _ _) rfl
      | stop =>
        have stopped : ((l.control.flushRt env).stopAsked p).shutdown = true := by simp [stopAsked, ending]
        have kept : ((l.control.flushRt env).stopAsked p).accepted = l.control.accepted := by
          simpa [stopAsked, ending] using flushed
        simp only [stopped, if_true] at given ⊢
        exact given kept ((release_accepted env _ _).trans (fadeOut_accepted env _)) rfl
    | none =>
      have same : (l.control.flushRt env).stopAsked p = l.control.flushRt env := by simp [stopAsked, ending]
      simp only [ending, same] at given ⊢
      by_cases stopping : (l.control.flushRt env).shutdown = true
      · simp only [stopping, if_true] at given ⊢
        exact given flushed ((release_accepted env _ _).trans (fadeOut_accepted env _)) rfl
      · simp only [stopping] at given ⊢
        have kept := (beforeSave_accepted env (l.control.flushRt env) p).trans flushed
        simp only [Bool.false_eq_true, if_false, tickOn, tickSave, saveAt] at given ⊢
        by_cases due : ((l.control.flushRt env).beforeSave env p).schedule.due p.now = true
        · simp only [due, if_true] at given ⊢
          exact given kept rfl rfl
        · simp only [due]
          exact .inl kept

/-- What the store accepts in a step is what the step gave it. -/
theorem handle_accepted (l : Loop) (act : Act) :
    (l.handle env act).1.control.accepted = l.control.accepted ∨
      ∃ c, savesAt env l act = some c ∧ (l.handle env act).1.control.accepted = c.persisted env := by
  cases act with
  | connected =>
    left
    simp only [Loop.handle]
    split <;> rfl
  | closed id => exact .inl (sends_dropPeer env _ id).accepted
  | frame id parsed =>
    simp only [Loop.handle, frame]
    split
    · exact .inl rfl
    · rename_i role here
      split
      · exact .inl (sends_reply env _ id _ _).accepted
      · exact .inl (quiet_hello env _ id _ _ here).accepted
      · exact request_accepted env l id _ _ _ here
  | tick p => exact tick_accepted env l p

end

/-! ### Resets -/

section
variable [Libm]

theorem one_resets {op : Cmd} {c next : Core} {p : Partial} {mix : MixId} (named : mix ∈ resetOf op)
    (ran : Core.one op c = .ok p next) :
    ∃ m, c.topo.mixIndex mix = some m ∧ RtOp.resetLimiter (ix m) ∈ p.rt := by
  cases op with
  | resetLimiterStats other =>
    cases named
    unfold Core.one at ran
    rw [Core.get_then, Core.read_then_ok] at ran
    obtain ⟨m, found, ran⟩ := ran
    cases ran
    unfold Core.mix at found
    split at found
    · rename_i m' known
      cases found
      exact ⟨m, known, by simp [Partial.changed]⟩
    · cases found
  | _ => cases named

theorem batchLoop_resets (ops : List Cmd) {c next : Core} {all result : Partial}
    (ran : Core.batchLoop ops all c = .ok result next) :
    (∀ op ∈ all.rt, op ∈ result.rt) ∧ ∀ mix ∈ ops.filterMap resetOf,
      ∃ m, c.topo.mixIndex mix = some m ∧ RtOp.resetLimiter (ix m) ∈ result.rt := by
  induction ops generalizing c all with
  | nil =>
    cases ran
    exact ⟨fun op there => there, fun mix named => by simp at named⟩
  | cons op rest ih =>
    rw [Core.batchLoop] at ran
    split at ran
    · cases ran
    · rename_i plain
      have edits : batchable op = true := by simpa using plain
      obtain ⟨p, mid, first, later⟩ := then_ok_iff.mp ran
      obtain ⟨kept, others⟩ := ih later
      have topo : mid.topo = c.topo := (Core.batchable_edit edits first).frame.1
      have stays : ∀ op ∈ p.rt, op ∈ result.rt := fun op there => kept op (by simp [Partial.extend, there])
      refine ⟨fun op there => kept op (by simp [Partial.extend, there]), fun mix named => ?_⟩
      obtain ⟨other, member, itself⟩ := List.mem_filterMap.mp named
      rcases List.mem_cons.mp member with rfl | inRest
      · obtain ⟨m, known, there⟩ := one_resets itself first
        exact ⟨m, known, stays _ there⟩
      · rw [← topo]
        exact others mix (List.mem_filterMap.mpr ⟨other, inRest, itself⟩)

theorem apply_resets {cmd : Cmd} {c next : Core} {out : Outcome} {mix : MixId} (named : mix ∈ resetsOf cmd)
    (ran : c.apply cmd = .ok out next) :
    ∃ m, c.topo.mixIndex mix = some m ∧ RtOp.resetLimiter (ix m) ∈ out.rt := by
  unfold Core.apply at ran
  obtain ⟨p, mid, dispatched, finished⟩ := then_ok_iff.mp ran
  cases finished
  cases cmd with
  | batch ops => exact (batchLoop_resets ops (Core.batch_ok dispatched)).2 mix named
  | resetLimiterStats other =>
    have itself : mix ∈ resetOf (.resetLimiterStats other) := Option.mem_toList.mp named
    exact one_resets itself dispatched
  | _ => cases named

variable (env : Outside)

/-- A step that resets a mix publishes the reset. -/
theorem resets_published {l : Loop} {act : Act} {mix : MixId} (reset : mix ∈ resets l act) :
    ∃ m rt, l.control.core.topo.mixIndex mix = some m ∧ RtOp.resetLimiter (ix m) ∈ rt ∧
      (l.handle env act).1.control.published = l.control.published ++ rt := by
  unfold resets at reset
  split at reset
  · rename_i id r origin cmd
    split at reset
    · cases reset
    · rename_i role here
      split at reset
      · rename_i out core allowed accepted
        obtain ⟨m, known, there⟩ := apply_resets reset accepted
        refine ⟨m, out.rt, known, there, ?_⟩
        obtain ⟨now, sends⟩ := sends_answer env l.control id r origin cmd out core
        simp only [Loop.handle, frame, here, request, allowed, accepted, perform_published]
        exact sends.published
      · cases reset
  · cases reset

end

/-! ### What the RT thread counts -/

section
variable [Libm]

/-- A reset zeroes a count; another command leaves them alone. -/
theorem apply_totals {p p' : Processor} {op : RtOp} (ran : p.apply op = some p') :
    (∃ m, op = .resetLimiter m ∧ p'.totals = p.totals.modify m fun _ => 0) ∨
      (∀ m, op ≠ .resetLimiter m) ∧ p'.totals = p.totals := by
  have kept : ∀ (m : ℕ) (g : MixRt → MixRt), (∀ n, (g n).limiter.total = n.limiter.total) →
      (p.mixes.modify m g).map (fun n => n.limiter.total) = p.totals := by
    intro m g same
    rw [map_modify id _ _ fun n _ => same n, List.modify_id]
    rfl
  have set : ∀ (n : MixRt) (enabled : Bool) (limitDb : F64),
      (Processor.setLimiter n enabled limitDb).limiter.total = n.limiter.total := by
    intro n enabled limitDb
    simp only [Processor.setLimiter, Dsp.MixLimiter.set]
    split <;> rfl
  cases op with
  | resetLimiter m =>
    left
    cases ran
    exact ⟨m, rfl, map_modify (fun _ => 0) _ _ fun n _ => rfl⟩
  | mixOut m =>
    cases ran
    exact .inr ⟨by simp, kept m _ fun n => rfl⟩
  | mixEq m =>
    cases ran
    exact .inr ⟨by simp, kept m _ fun n => rfl⟩
  | limiter m enabled limitDb =>
    cases ran
    exact .inr ⟨by simp, kept m _ fun n => set n enabled limitDb⟩
  | level m =>
    cases ran
    exact .inr ⟨by simp, kept m _ fun n => rfl⟩
  | group m =>
    cases ran
    exact .inr ⟨by simp, kept m _ fun n => rfl⟩
  | groupEq m =>
    cases ran
    exact .inr ⟨by simp, kept m _ fun n => rfl⟩
  | testSignal | hilTestSignal =>
    cases ran
    refine .inr ⟨by simp, ?_⟩
    simp [Processor.totals, Processor.startTest, Function.comp_def]
  | panic => cases ran
  | arm =>
    refine .inr ⟨by simp, ?_⟩
    simp only [Processor.apply] at ran
    split at ran
    · cases ran
      rfl
    · cases ran
      rfl
  | nop | input | inputEq | listen | stopTestSignal | fadeOut =>
    cases ran
    exact .inr ⟨by simp, rfl⟩

omit [Libm] in
theorem count_totals (p : Processor) (m n : ℕ) :
    (p.count m n).totals = p.totals.modify m (saturatingAdd · n) := by
  have late : ∀ base active : ℕ, saturatingAdd base (active + n) = saturatingAdd (saturatingAdd base active) n := by
    intro base active
    show min _ _ = min (min _ _ + n) _
    omega
  exact map_modify _ _ _ fun node _ => late node.limiter.base node.limiter.active

end

/-! ### Resets across the two halves -/

namespace Halves

/-- Counts read when the RT thread had applied `applied` commands are at most what a
mix counted since its reset, as soon as the reset is among them. -/
structure Sound (s : Halves) (mix : MixId) (applied : ℕ) (active : List ℕ) : Prop where
  reached : applied ≤ s.loop.control.published.length
  bound : ∀ n, s.since mix = some n → s.Settled mix applied →
    ∀ m, s.loop.control.core.topo.mixIndex mix = some m → ∀ a ∈ active[m]?, a ≤ n

/-- The RT thread's counts, the frame on its way and the loop's own copy. -/
structure Counts (mix : MixId) (s : Halves) : Prop where
  sane : Sane s.loop.control.core
  rt : s.Sound mix s.applied s.rt.totals
  frame : ∀ f ∈ s.frame, s.Sound mix f.applied f.active
  read : s.Sound mix s.read s.loop.control.counters

variable {mix : MixId} {s s' : Halves} {applied : ℕ} {active : List ℕ}

/-- More may have been counted since. -/
theorem Sound.grown (sound : s.Sound mix applied active) (loop : s'.loop = s.loop)
    (since : ∀ n', s'.since mix = some n' → ∃ n ≤ n', s.since mix = some n) :
    s'.Sound mix applied active := by
  constructor
  · rw [loop]
    exact sound.reached
  · intro n' held settled m known a there
    obtain ⟨n, less, held⟩ := since n' held
    simp only [Settled, loop] at settled known
    exact (sound.bound n held settled m known a there).trans less

theorem Sound.same (sound : s.Sound mix applied active) (loop : s'.loop = s.loop)
    (since : s'.since = s.since) : s'.Sound mix applied active :=
  sound.grown loop fun n' held => ⟨n', le_rfl, since ▸ held⟩

/-- The loop published more: what was read before a new reset says nothing of it. -/
theorem Sound.published (sound : s.Sound mix applied active) {rt : List RtOp}
    (topo : s'.loop.control.core.topo = s.loop.control.core.topo)
    (more : s'.loop.control.published = s.loop.control.published ++ rt)
    (since : s'.since mix = s.since mix ∨ ∃ m, s.loop.control.core.topo.mixIndex mix = some m ∧
      RtOp.resetLimiter (ix m) ∈ rt) : s'.Sound mix applied active := by
  constructor
  · rw [more, List.length_append]
    exact sound.reached.trans (Nat.le_add_right ..)
  · intro n held settled m known a there
    have later : ∀ m, s.loop.control.core.topo.mixIndex mix = some m → RtOp.resetLimiter (ix m) ∉
        s.loop.control.published.drop applied ++ rt := by
      intro m known
      have none := settled m (topo ▸ known)
      rwa [more, List.drop_append_of_le_length sound.reached] at none
    rw [topo] at known
    rcases since with same | ⟨m', known', reset⟩
    · rw [same] at held
      refine sound.bound n held (fun m known => ?_) m known a there
      exact fun inside => later m known (List.mem_append_left _ inside)
    · exact absurd (List.mem_append_right _ reset) (later m' known')

/-- One more command applied: the reset among them zeroed the count. -/
theorem Sound.apply [Libm] (sound : s.Sound mix s.applied s.rt.totals) (sane : Sane s.loop.control.core)
    {op : RtOp} {rt : Processor} (next : s.loop.control.published[s.applied]? = some op)
    (ran : s.rt.apply op = some rt) : s.Sound mix (s.applied + 1) rt.totals := by
  obtain ⟨bound, same⟩ := List.getElem?_eq_some_iff.mp next
  have dropped : s.loop.control.published.drop s.applied =
      op :: s.loop.control.published.drop (s.applied + 1) := by
    rw [List.drop_eq_getElem_cons bound, same]
  refine ⟨bound, fun n held settled m known a there => ?_⟩
  have small : m < 65536 := by
    obtain ⟨node, there, -⟩ := Option.map_eq_some_iff.mp ((TopologyProofs.mixIndex_iff sane.wf mix m).mp known)
    exact (List.getElem?_eq_some_iff.mp there).1.trans sane.wf.mixBound
  have others : op ≠ .resetLimiter m → s.Settled mix s.applied := by
    intro apart m' known'
    cases known.symm.trans known'
    rw [dropped, List.mem_cons, not_or]
    exact ⟨fun is => apart (ix_of_lt small ▸ is).symm, settled m known⟩
  rcases apply_totals ran with ⟨m', rfl, zeroed⟩ | ⟨plain, same⟩
  · rw [zeroed] at there
    by_cases itself : m' = m
    · subst itself
      simp only [List.getElem?_modify_eq, Option.mem_def, Option.map_eq_map, Option.map_eq_some_iff] at there
      obtain ⟨-, -, rfl⟩ := there
      exact Nat.zero_le n
    · rw [List.getElem?_modify_ne _ _ itself] at there
      exact sound.bound n held (others fun is => itself (RtOp.resetLimiter.inj is)) m known a there
  · rw [same] at there
    exact sound.bound n held (others (plain m)) m known a there

/-- Samples counted: at the mix itself they count after the reset, too. -/
theorem Sound.count (sound : s.Sound mix s.applied s.rt.totals) (m n : ℕ) (loop : s'.loop = s.loop)
    (since : s'.since = s.counted m n) : s'.Sound mix s.applied (s.rt.count m n).totals := by
  refine ⟨loop ▸ sound.reached, fun total held settled k known a there => ?_⟩
  have settled' : s.Settled mix s.applied := by simpa only [Settled, loop] using settled
  rw [loop] at known
  simp only [since, counted, known, settled', Option.some.injEq, and_true] at held
  rw [count_totals] at there
  by_cases itself : k = m
  · subst itself
    rw [if_pos rfl] at held
    obtain ⟨before, was, rfl⟩ := Option.map_eq_some_iff.mp held
    simp only [List.getElem?_modify_eq, Option.mem_def, Option.map_eq_map, Option.map_eq_some_iff] at there
    obtain ⟨b, there, rfl⟩ := there
    calc saturatingAdd b n ≤ b + n := Nat.min_le_left ..
      _ ≤ before + n := Nat.add_le_add_right (sound.bound before was settled' k known b there) n
  · rw [if_neg itself] at held
    rw [List.getElem?_modify_ne _ _ (Ne.symm itself)] at there
    exact sound.bound total held settled' k known a there

theorem counted_grown (s : Halves) (m n : ℕ) {n' : ℕ} (held : s.counted m n mix = some n') :
    ∃ n ≤ n', s.since mix = some n := by
  unfold counted at held
  split at held
  · obtain ⟨before, was, rfl⟩ := Option.map_eq_some_iff.mp held
    exact ⟨before, Nat.le_add_right .., was⟩
  · exact ⟨n', le_rfl, held⟩

/-- What the store is given, mix by mix. -/
theorem persisted_counter {core : Core} {counters : List ℕ} {savedUnixMs : UInt64} {v : UInt64}
    (sane : Sane core) (held : (persistedOf core counters savedUnixMs).counters[mix]? = some v) :
    ∃ m, core.topo.mixIndex mix = some m ∧ ∃ a ∈ counters[m]?, v = .ofNat a := by
  have member := BTreeMap.mem_of_getElem?_collect _ _ _ held
  obtain ⟨⟨node, a⟩, inside, same⟩ := List.mem_map.mp member
  obtain ⟨m, there⟩ := List.mem_iff_getElem?.mp inside
  obtain ⟨named, counted⟩ := List.getElem?_zip_eq_some.mp there
  cases same
  exact ⟨m, (TopologyProofs.mixIndex_iff sane.wf _ m).mpr (by simp [named]), a, counted, rfl⟩

/-- A frame is read by a tick the loop goes on after, and by nothing else. -/
theorem Counts.found (counts : s.Counts mix) {act : Act} {counters : List ℕ}
    (held : counters = if readsMeters s.loop act then
      (s.frame.map (·.active)).getD s.loop.control.counters else s.loop.control.counters) :
    s.Sound mix (s.readBy act) counters := by
  unfold readBy
  cases reads : readsMeters s.loop act with
  | false =>
    simp only [reads, Bool.false_eq_true, if_false] at held ⊢
    exact held ▸ counts.read
  | true =>
    simp only [reads, if_true] at held ⊢
    cases waits : s.frame with
    | none =>
      rw [waits] at held
      exact held ▸ counts.read
    | some frame =>
      rw [waits] at held
      exact held ▸ counts.frame frame waits

section
variable [Libm] (env : Outside)

/-- The state a save writes, and the counters in it. -/
theorem Counts.saved (counts : s.Counts mix) {act : Act} {c : Control}
    (asked : savesAt env s.loop (s.finds act) = some c) :
    Progress s.loop.control c ∧ s.Sound mix (s.readBy (s.finds act)) c.counters := by
  cases act with
  | connected => cases asked
  | closed id => cases asked
  | frame id parsed =>
    rcases parsed with error | (⟨proto, role, client⟩ | ⟨r, origin, cmd⟩)
    · cases asked
    · cases asked
    · obtain ⟨progress, same⟩ := saveAt_frame env asked
      exact ⟨progress, counts.found same⟩
  | tick p =>
    rcases savesAt_tick env s.loop { p with meters := s.frame.map (·.toMeterFrame) } with
      ⟨reads, same⟩ | ⟨reads, c', same, progress, kept⟩
    · obtain ⟨progress, counters⟩ := saveAt_tick env (same.symm.trans asked)
      refine ⟨progress, counts.found ?_⟩
      simp only [finds, Act.finding, reads, if_true]
      rw [counters, Option.map_map]
      rfl
    · cases same.symm.trans asked
      refine ⟨progress, counts.found ?_⟩
      simp only [finds, Act.finding, reads]
      exact kept

/-- The counters after a step of the loop. -/
theorem Counts.stepped (counts : s.Counts mix) {act : Act} {l' : Loop}
    (step : s.loop.Step env (s.finds act) l') :
    s.Sound mix (s.readBy (s.finds act)) l'.control.counters := by
  refine counts.found ?_
  cases act with
  | connected =>
    rcases (step_connected env step).1 with same | same <;> rw [same] <;> rfl
  | closed id =>
    rw [(step_closed env step).1]
    exact counters_dropPeer env _ id
  | frame id parsed =>
    rw [(step_frame env step).1]
    exact counters_frame env _ id parsed
  | tick p =>
    have reads : readsMeters s.loop (s.finds (.tick p)) = true := by
      obtain ⟨-, step⟩ := step
      simp only [finds, Act.finding, Loop.handle, Prod.mk.injEq] at step
      exact readsMeters_tick env step.2
    rw [reads, if_pos rfl, (step_tick env step).1, tickOn, counters_tickSave, counters_beforeSave,
      counters_flushRt, Option.map_map]
    rfl

/-- What a step of the loop saves was counted after the reset. -/
theorem stepLoop_durable (counts : s.Counts mix) (act : Act) (durable : s.Durable mix)
    (fresh : s.Fresh env mix (.loop act)) : (s.stepLoop env (s.finds act)).Durable mix := by
  intro save member n since v held
  rcases List.mem_append.mp member with before | now
  · exact durable save before n since v held
  · obtain ⟨c, asked, rfl⟩ := Option.map_eq_some_iff.mp (Option.mem_toList.mp now)
    obtain ⟨progress, sound⟩ := counts.saved env asked
    obtain ⟨events, core, -⟩ := id progress
    have topo : c.core.topo = s.loop.control.core.topo := by
      rw [core]
      exact (Core.run_canonical _ events counts.sane.wf counts.sane.canonical).1
    obtain ⟨m, known, a, counted, rfl⟩ := persisted_counter (progress.sane counts.sane) held
    have settled := fresh (by rw [asked]; rfl) (by simp only at since; rw [since]; rfl)
    calc (UInt64.ofNat a).toNat = a % 2 ^ 64 := UInt64.toNat_ofNat ..
      _ ≤ a := Nat.mod_le ..
      _ ≤ n := sound.bound n since settled m (topo ▸ known) a counted

/-- A step the loop goes on after. -/
theorem stepLoop_counts (counts : s.Counts mix) {act : Act} {l' : Loop}
    (step : s.loop.Step env (s.finds act) l') : (s.stepLoop env (s.finds act)).Counts mix := by
  have progress := step_progress env step
  obtain ⟨events, core, published⟩ := id progress
  have loop : (s.stepLoop env (s.finds act)).loop = l' := by simp [stepLoop, step.2]
  have topo : l'.control.core.topo = s.loop.control.core.topo := by
    rw [core]
    exact (Core.run_canonical _ events counts.sane.wf counts.sane.canonical).1
  have later : ∀ applied active, s.Sound mix applied active →
      (s.stepLoop env (s.finds act)).Sound mix applied active := by
    intro applied active sound
    refine sound.published (by rw [loop, topo]) (by rw [loop, published]) ?_
    by_cases reset : mix ∈ resets s.loop (s.finds act)
    · right
      obtain ⟨m, rt, known, there, more⟩ := resets_published env reset
      rw [step.2, published] at more
      exact ⟨m, known, List.append_cancel_left more ▸ there⟩
    · left
      simp [stepLoop, reset]
  refine ⟨loop ▸ progress.sane counts.sane, later _ _ counts.rt, fun f waits => ?_, ?_⟩
  · simp only [stepLoop] at waits
    split at waits
    · cases waits
    · exact later _ _ (counts.frame f waits)
  · rw [loop]
    exact later _ _ (counts.stepped env step)

/-- As long as the loop runs the counts are kept; what was saved stays. -/
structure Held (mix : MixId) (s : Halves) : Prop where
  durable : s.Durable mix
  counts : s.ended = false → s.Counts mix

theorem held_move {m : Move} (held : s.Held mix) (fresh : s.Fresh env mix m)
    (moved : s.move env m = some s') : s'.Held mix := by
  cases m with
  | loop act =>
    simp only [move] at moved
    split at moved
    · cases moved
    · rename_i open'
      cases moved
      simp only [Bool.or_eq_true, Bool.not_eq_true', not_or, Bool.not_eq_true, Bool.not_eq_false] at open'
      obtain ⟨runs, takes⟩ := open'
      have counts := held.counts runs
      refine ⟨stepLoop_durable env counts act held.durable fresh, fun goesOn => ?_⟩
      have none : (s.loop.handle env (s.finds act)).2 = none := by simpa [stepLoop] using goesOn
      exact stepLoop_counts env counts ⟨takes, Prod.ext rfl none⟩
  | apply =>
    simp only [move] at moved
    split at moved
    · obtain ⟨op, next, applied⟩ := Option.bind_eq_some_iff.mp moved
      obtain ⟨rt, ran, rfl⟩ := Option.map_eq_some_iff.mp applied
      refine ⟨held.durable, fun runs => ?_⟩
      have counts := held.counts runs
      have same : ∀ {applied active}, s.Sound mix applied active →
          Sound { s with rt, applied := s.applied + 1 } mix applied active := (·.same rfl rfl)
      exact ⟨counts.sane, same (counts.rt.apply counts.sane next ran),
        fun f waits => same (counts.frame f waits), same counts.read⟩
    · cases moved
  | count m n =>
    cases moved
    refine ⟨held.durable, fun runs => ?_⟩
    have counts := held.counts runs
    have grown : ∀ {applied active}, s.Sound mix applied active →
        Sound { s with rt := s.rt.count m n, since := s.counted m n } mix applied active := fun sound =>
      sound.grown rfl fun n' held => counted_grown s m n held
    exact ⟨counts.sane, counts.rt.count m n rfl rfl, fun f waits => grown (counts.frame f waits),
      grown counts.read⟩
  | meter trips =>
    cases moved
    refine ⟨held.durable, fun runs => ?_⟩
    have counts := held.counts runs
    refine ⟨counts.sane, counts.rt.same rfl rfl, fun f waits => ?_, counts.read.same rfl rfl⟩
    cases waits
    exact counts.rt.same rfl rfl

end
end Halves

variable [Libm] (env : Outside)

/-- Whatever the store accepted is among the saves. -/
theorem accepted_saved {ok : Halves → Move → Prop} {s s' : Halves} (run : Leads (Halves.move env) ok s s') :
    s'.loop.control.accepted = s.loop.control.accepted ∨
      ∃ save ∈ s'.saves, save.written = s'.loop.control.accepted := by
  induction run with
  | refl => exact .inl rfl
  | @tail mid next _ step ih =>
    obtain ⟨m, -, moved⟩ := step
    cases m with
    | loop act =>
      simp only [Halves.move] at moved
      split at moved
      · cases moved
      · cases moved
        rcases handle_accepted env mid.loop (mid.finds act) with same | ⟨c, asked, saved⟩
        · rcases ih with kept | ⟨save, member, is⟩
          · exact .inl (same.trans kept)
          · exact .inr ⟨save, List.mem_append_left _ member, is.trans same.symm⟩
        · right
          refine ⟨⟨c.persisted env, mid.since⟩, List.mem_append_right _ ?_, saved.symm⟩
          rw [asked]
          exact List.mem_singleton_self _
    | apply =>
      simp only [Halves.move] at moved
      split at moved
      · obtain ⟨op, -, applied⟩ := Option.bind_eq_some_iff.mp moved
        obtain ⟨rt, -, rfl⟩ := Option.map_eq_some_iff.mp applied
        exact ih
      · cases moved
    | count m n =>
      cases moved
      exact ih
    | meter trips =>
      cases moved
      exact ih

/-- A reset of the limiter statistics is durable. In every run of the control loop of a
compiled site beside the RT thread in which each save after a reset of `mix` takes its
counters from a meter frame written after the RT thread applied that reset, every state
saved holds for `mix` at most what was counted after the reset; and what the store accepted
last, so what the engine would start from, is what it had at first or one of these saves. -/
theorem resets_durable {digest : TopologyInfo → String} (site : TopologyProofs.Compiled digest)
    (state : MixState) (rev : ℕ) (flags : Flags) (hil : List UInt16) (counters : List ℕ)
    (alarms : List Alarm) (settings : Settings) (now : ℕ) (opts : Options) (mix : MixId) (s : Halves)
    (run : Leads (Halves.move env) (Halves.Fresh env mix)
      (.new ((Core.new site.topo state rev flags).withHil hil) state counters alarms settings now opts) s) :
    s.Durable mix ∧
      (s.loop.control.accepted = (Halves.new ((Core.new site.topo state rev flags).withHil hil) state counters alarms
          settings now opts).loop.control.accepted ∨
        ∃ save ∈ s.saves, save.written = s.loop.control.accepted) := by
  let core := (Core.new site.topo state rev flags).withHil hil
  have sane : Sane core :=
    ⟨(TopologyProofs.compile_spec digest site).1, Core.new_canonical site.topo state rev flags hil⟩
  have sound : ∀ active, (Halves.new core state counters alarms settings now opts).Sound mix 0 active :=
    fun active => ⟨Nat.le_refl 0, fun n held => by cases held⟩
  have start : (Halves.new core state counters alarms settings now opts).Held mix :=
    ⟨fun save none => (by cases none), fun _ => ⟨sane, sound _, fun f none => (by cases none), sound _⟩⟩
  have durable := (run.invariant (fun _ _ _ held fresh moved => Halves.held_move env held fresh moved) start).durable
  exact ⟨durable, accepted_saved env run⟩

omit [Libm]

/-- `duet` just started, its second mix limited for 7 samples before. -/
def duetHalves : Halves :=
  @Halves.new Core.duetLibm ((Core.new TopologyProofs.duetCompiled.topo {} 7 {}).withHil []) {} [0, 7, 0] []
    ⟨10000000000, 32, false⟩ 0 {}

/-- A controller connects and resets that mix. -/
def resetBen : List Move :=
  [.loop .connected, .loop (.frame 1 (.ok (.hello 1 .control "server"))),
    .loop (.frame 1 (.ok (.request 1 none (.resetLimiterStats "ben"))))]

def saveNow : Move := .loop (.frame 1 (.ok (.request 2 none .saveNow)))

/-- A save after the next meter frame. -/
theorem resets_durable_duet : ∃ s, s.saves.map (fun save => save.written.counters["ben"]?) = [some 3] ∧
    Halves.Durable "ben" s := by
  have ran : (runThrough (@Halves.move Core.duetLibm calm)
      (fun s m => decide (@Halves.Fresh Core.duetLibm calm "ben" s m)) duetHalves
      (resetBen ++ [.apply, .count 1 3, .meter 0, .loop (.tick { now := 1 }), saveNow])).any fun s =>
        s.saves.map (fun save => save.written.counters["ben"]?) == [some 3] := by decide +kernel
  obtain ⟨s, reached, saved⟩ := (Option.any_eq_true _ _).mp ran
  refine ⟨s, eq_of_beq saved, ?_⟩
  exact (@resets_durable Core.duetLibm calm _ TopologyProofs.duetCompiled {} 7 {} [] _ _ _ _ _ "ben" s
    (runThrough_leads (fun s m => of_decide_eq_true) reached)).1

/-- The save asked for right after the reset writes what was counted before it. -/
theorem reset_then_save : ¬ ∀ (env : Outside) (s : Halves),
    Leads (@Halves.move Core.duetLibm env) (fun _ _ => True) duetHalves s → s.Durable "ben" := by
  intro durable
  have ran : (runThrough (@Halves.move Core.duetLibm calm) (fun _ _ => true) duetHalves
      (resetBen ++ [saveNow])).any fun s =>
        s.saves.any fun save => save.since "ben" == some 0 && save.written.counters["ben"]? == some 7 := by
    decide +kernel
  obtain ⟨s, reached, stale⟩ := (Option.any_eq_true _ _).mp ran
  obtain ⟨save, member, both⟩ := List.any_eq_true.mp stale
  obtain ⟨since, held⟩ := Bool.and_eq_true_iff.mp both
  have none := durable calm s (runThrough_leads (fun _ _ _ => trivial) reached) save member 0
    (eq_of_beq since) 7 (eq_of_beq held)
  exact absurd none (by decide)

end IemMixer.Control
