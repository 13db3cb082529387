import SqlalchemyCollectd.Client.Plugin

/-!
# SqlalchemyCollectd.Client.Separation

Which engines are reported only where they were told to be.

What a sender should send is what a target would count that is there for its engines
alone (`alone`). The worker sends that, in every run of the pools, exactly when no
engine is started twice and no two calls agree in the program name but not in the
rest (`reported_where_told_iff`): two calls with one program name share a target, and
of two collectors of one engine the later misses what the earlier raises on.
-/

namespace SqlalchemyCollectd

open EngineCollector

namespace Plugin

variable {env : Environment} {noneId : ℕ}

/-- The program name of a call. -/
abbrev program (env : Environment) (call : Call) : String := (call.sender env).statsName

/-- The calls of `start_plugin` in a run. -/
def callsOf (actions : List Action) : List Call :=
  actions.filterMap fun
    | .start call => some call
    | .event _ _ => none

theorem callsOf_append (actions : List Action) (action : Action) :
    callsOf (actions ++ [action]) = callsOf actions ++ callsOf [action] :=
  List.filterMap_append

theorem run_append (actions : List Action) (action : Action) :
    run env noneId (actions ++ [action]) = step env noneId (run env noneId actions) action := by
  unfold run
  rw [List.foldl_append, List.foldl_cons, List.foldl_nil]

/-! ### The engines of one sender -/

/-- One action, for a target that is there for the engines of one sender alone. -/
def aloneStep (env : Environment) (noneId : ℕ) (sender : Sender) (target : CollectionTarget) :
    Action → CollectionTarget
  | .start call =>
      if call.sender env = sender ∧ call.engine ∉ target.collectors then
        { target with collectors := target.collectors ++ [call.engine] }
      else target
  | .event engine event =>
      if engine ∈ target.collectors then (handle noneId target event).1 else target

/-- The connections, checkouts and pools of the engines that were started with the
arguments of a sender. -/
def alone (env : Environment) (noneId : ℕ) (sender : Sender) (actions : List Action) :
    CollectionTarget :=
  actions.foldl (aloneStep env noneId sender) {}

theorem alone_append (sender : Sender) (actions : List Action) (action : Action) :
    alone env noneId sender (actions ++ [action]) =
      aloneStep env noneId sender (alone env noneId sender actions) action := by
  unfold alone
  rw [List.foldl_append, List.foldl_cons, List.foldl_nil]

theorem mem_collectors_alone {sender : Sender} {actions : List Action} {engine : ℕ} :
    engine ∈ (alone env noneId sender actions).collectors ↔
      ∃ call ∈ callsOf actions, call.engine = engine ∧ call.sender env = sender := by
  induction actions using List.reverseRecOn with
  | nil => simp [alone, callsOf]
  | append_singleton actions action ih =>
      rw [alone_append, callsOf_append]
      cases action with
      | start call =>
          simp only [callsOf, List.filterMap_cons, List.filterMap_nil, List.mem_append,
            List.mem_singleton, or_and_right, exists_or, exists_eq_left, aloneStep] at ih ⊢
          split
          · rename_i hnew
            rw [List.mem_append, ih, List.mem_singleton]
            exact or_congr_right ⟨fun h => ⟨h.symm, hnew.1⟩, fun h => h.1.symm⟩
          · rename_i hold
            rw [ih]
            refine ⟨.inl, ?_⟩
            rintro (h | ⟨rfl, hsender⟩)
            · exact h
            · rw [← ih]
              by_contra hnot
              exact hold ⟨hsender, hnot⟩
      | event engine' event =>
          simp only [callsOf, List.filterMap_cons, List.filterMap_nil, List.append_nil,
            aloneStep] at ih ⊢
          split
          · rw [collectors_handle, ih]
          · exact ih

theorem alone_eq_empty {sender : Sender} {actions : List Action}
    (h : ∀ call ∈ callsOf actions, call.sender env ≠ sender) :
    alone env noneId sender actions = {} := by
  induction actions using List.reverseRecOn with
  | nil => rfl
  | append_singleton actions action ih =>
      rw [callsOf_append] at h
      rw [alone_append, ih fun call hcall => h call (List.mem_append_left _ hcall)]
      cases action with
      | start call =>
          have hother : call.sender env ≠ sender := h call (List.mem_append_right _ (by simp [callsOf]))
          rw [aloneStep, if_neg fun hnew => hother hnew.1]
      | event engine event => rfl

/-- The engines are among those of the calls, each once. -/
theorem collectors_alone_sublist (env : Environment) (noneId : ℕ) (sender : Sender)
    (actions : List Action) :
    (alone env noneId sender actions).collectors.Sublist
        (((callsOf actions).filter fun call => call.sender env = sender).map Call.engine) ∧
      (alone env noneId sender actions).collectors.Nodup := by
  induction actions using List.reverseRecOn with
  | nil => exact ⟨List.Sublist.slnil, List.nodup_nil⟩
  | append_singleton actions action ih =>
      rw [alone_append, callsOf_append, List.filter_append, List.map_append]
      cases action with
      | start call =>
          rw [aloneStep]
          split
          · rename_i hnew
            refine ⟨ih.1.append ?_, ?_⟩
            · simp [callsOf, hnew.1]
            · exact List.nodup_append.mpr ⟨ih.2, List.nodup_singleton _, fun e he e' he' heq =>
                hnew.2 (List.mem_singleton.mp he' ▸ heq ▸ he)⟩
          · exact ⟨ih.1.trans (List.sublist_append_left ..), ih.2⟩
      | event engine event =>
          rw [aloneStep]
          split
          · rw [collectors_handle]
            exact ⟨ih.1.trans (List.sublist_append_left ..), ih.2⟩
          · exact ⟨ih.1.trans (List.sublist_append_left ..), ih.2⟩

/-! ### The registries -/

/-- A target, there or not, with one more collector. -/
def enlist (engine : ℕ) (target : Option CollectionTarget) : CollectionTarget :=
  { target.getD {} with collectors := (target.getD {}).collectors ++ [engine] }

theorem targets_startPlugin (call : Call) (s : Plugin) (name : String) :
    (s.startPlugin env call).targets.get? name =
      if name = program env call then
        some (enlist call.engine (s.targets.get? (program env call)))
      else s.targets.get? name := by
  unfold startPlugin engineCollector collectionForName enlist
  cases hget : s.targets.get? (program env call) with
  | some target =>
      simp only [hget, Option.getD_some]
      exact OrderedDict.get?_set ..
  | none =>
      simp only [hget, Option.getD_none, OrderedDict.get?_set]
      split <;> rfl

theorem registries_startPlugin (call : Call) (s : Plugin) :
    (s.startPlugin env call).listeners = s.listeners ++ [(call.engine, program env call)] ∧
      (s.startPlugin env call).worker =
        Worker.addTarget (program env call, call.sender env) s.worker := by
  unfold startPlugin engineCollector collectionForName
  cases hget : s.targets.get? (program env call) with
  | some target => simp [hget]
  | none => simp [hget]

theorem mem_pairs_startPlugin (call : Call) (s : Plugin) (pair : String × Sender) :
    pair ∈ (s.startPlugin env call).worker.targets.keys ↔
      pair ∈ s.worker.targets.keys ∨ pair = (program env call, call.sender env) := by
  rw [(registries_startPlugin call s).2, Worker.addTarget, Worker.targets_checkThreadsStarted]
  split
  · rename_i hknown
    exact ⟨.inl, fun h => h.elim id fun heq => heq ▸ hknown⟩
  · rename_i hnew
    rw [OrderedDict.keys_set, if_neg hnew, List.mem_append, List.mem_singleton]

theorem collectors_dispatch (noneId : ℕ) (event : PoolEvent) (names : List String)
    (targets : OrderedDict String CollectionTarget) (name : String) :
    ((dispatch noneId event names targets).get? name).map CollectionTarget.collectors =
      (targets.get? name).map CollectionTarget.collectors := by
  induction names generalizing targets with
  | nil => rfl
  | cons first names ih =>
      rw [dispatch]
      cases hget : targets.get? first with
      | none => exact ih targets
      | some target =>
          have hset : ((targets.set first (handle noneId target event).1).get? name).map
              CollectionTarget.collectors =
                (targets.get? name).map CollectionTarget.collectors := by
            rw [OrderedDict.get?_set]
            split
            · rename_i hname
              rw [hname, hget, Option.map_some, Option.map_some, collectors_handle]
            · rfl
          dsimp only
          split
          · exact hset
          · rw [ih, hset]

/-- What the registries hold after certain calls, whatever happened in the pools. -/
structure Registered (env : Environment) (calls : List Call) (s : Plugin) : Prop where
  listeners : s.listeners = calls.map fun call => (call.engine, program env call)
  known : ∀ name, (s.targets.get? name).isSome ↔ ∃ call ∈ calls, program env call = name
  collectors : ∀ name, ∀ target ∈ s.targets.get? name,
    target.collectors = (calls.filter fun call => program env call = name).map Call.engine
  pairs : ∀ pair, pair ∈ s.worker.targets.keys ↔
    ∃ call ∈ calls, pair = (program env call, call.sender env)

theorem Registered.start {calls : List Call} {s : Plugin} (h : Registered env calls s)
    (call : Call) : Registered env (calls ++ [call]) (s.startPlugin env call) := by
  refine ⟨?_, fun name => ?_, fun name target htarget => ?_, fun pair => ?_⟩
  · rw [(registries_startPlugin call s).1, h.listeners, List.map_append]
    rfl
  · rw [targets_startPlugin]
    simp only [List.mem_append, List.mem_singleton, or_and_right, exists_or, exists_eq_left]
    split
    · rename_i hname
      exact iff_of_true rfl (.inr hname.symm)
    · rename_i hname
      rw [h.known, or_iff_left (Ne.symm hname)]
  · rw [Option.mem_def, targets_startPlugin] at htarget
    rw [List.filter_append, List.map_append]
    split at htarget
    · rename_i hname
      subst hname
      rw [← Option.some.inj htarget]
      have hlast : [call].filter (fun c => program env c = program env call) = [call] := by
        simp
      rw [hlast]
      cases hold : s.targets.get? (program env call) with
      | some old =>
          show old.collectors ++ _ = _
          rw [h.collectors _ old hold]
          rfl
      | none =>
          -- nobody was started under this name before
          have hnone : calls.filter (fun c => program env c = program env call) = [] := by
            refine List.filter_eq_nil_iff.mpr fun c hc heq => ?_
            have hsome := (h.known _).mpr ⟨c, hc, of_decide_eq_true heq⟩
            rw [hold] at hsome
            cases hsome
          rw [hnone]
          rfl
    · rename_i hname
      have hlast : [call].filter (fun c => program env c = name) = [] := by
        simp [Ne.symm hname]
      rw [hlast, List.map_nil, List.append_nil]
      exact h.collectors name target htarget
  · rw [mem_pairs_startPlugin, h.pairs]
    simp only [List.mem_append, List.mem_singleton, or_and_right, exists_or, exists_eq_left]

theorem Registered.event {calls : List Call} {s : Plugin} (h : Registered env calls s)
    (engine : ℕ) (event : PoolEvent) :
    Registered env calls (s.poolEvent noneId engine event) := by
  have hcollectors := collectors_dispatch noneId event (s.listenersOf engine) s.targets
  refine ⟨h.listeners, fun name => ?_, fun name target htarget => ?_, fun pair => ?_⟩
  · show ((dispatch noneId event (s.listenersOf engine) s.targets).get? name).isSome ↔ _
    rw [← h.known, ← Option.isSome_map, hcollectors, Option.isSome_map]
  · have hmap := hcollectors name
    rw [show (dispatch noneId event (s.listenersOf engine) s.targets).get? name = some target
      from htarget, Option.map_some, eq_comm, Option.map_eq_some_iff] at hmap
    obtain ⟨old, hold, heq⟩ := hmap
    rw [← heq]
    exact h.collectors name old hold
  · rw [← h.pairs]
    unfold poolEvent
    dsimp only
    split
    · rw [Worker.targets_checkThreadsStarted]
    · rfl

theorem registered_run (env : Environment) (noneId : ℕ) (actions : List Action) :
    Registered env (callsOf actions) (run env noneId actions) := by
  induction actions using List.reverseRecOn with
  | nil =>
      refine ⟨rfl, fun name => ?_, fun name target htarget => (by cases htarget), fun pair => ?_⟩
      · simp [run, callsOf]
      · simp [run, callsOf]
  | append_singleton actions action ih =>
      rw [run_append, callsOf_append]
      cases action with
      | start call => exact ih.start call
      | event engine event =>
          rw [show callsOf [Action.event engine event] = [] from rfl, List.append_nil]
          exact ih.event engine event

section Registries

variable {calls : List Call} {s : Plugin}

theorem Registered.listenersOf (h : Registered env calls s) (engine : ℕ) :
    s.listenersOf engine =
      (calls.filter fun call => call.engine = engine).map (program env) := by
  rw [Plugin.listenersOf, h.listeners, List.filter_map, List.map_map]
  rfl

theorem Registered.mem_listenersOf (h : Registered env calls s) {engine : ℕ} {name : String} :
    name ∈ s.listenersOf engine ↔
      ∃ call ∈ calls, call.engine = engine ∧ program env call = name := by
  rw [h.listenersOf]
  simp [and_assoc]

theorem Registered.exists_target (h : Registered env calls s) {call : Call} (hcall : call ∈ calls) :
    ∃ target, s.targets.get? (program env call) = some target :=
  Option.isSome_iff_exists.mp ((h.known _).mpr ⟨call, hcall, rfl⟩)

end Registries

/-! ### What the worker sends -/

theorem eq_singleton_of_nodup {β : Type} {l : List β} {b : β} (hnodup : l.Nodup)
    (hall : ∀ x ∈ l, x = b) (hmem : b ∈ l) : l = [b] := by
  cases l with
  | nil => cases hmem
  | cons x l =>
      obtain rfl := hall x List.mem_cons_self
      cases l with
      | nil => rfl
      | cons y l =>
          obtain rfl := hall y (by simp)
          simp at hnodup

/-- Through a sender that was asked for, the worker sends the target of its program. -/
theorem Registered.sent {calls : List Call} {s : Plugin} (h : Registered env calls s)
    {call : Call} (hcall : call ∈ calls) {target : CollectionTarget}
    (htarget : s.targets.get? (program env call) = some target) (timestamp : ℚ)
    (processToken : String) :
    s.sent (call.sender env) timestamp processToken =
      (call.sender env).send target timestamp Worker.interval processToken := by
  have hpairs : s.worker.targets.keys.filter (fun pair => pair.2 = call.sender env) =
      [(program env call, call.sender env)] := by
    refine eq_singleton_of_nodup (s.worker.targets.keys_nodup.filter _) ?_ ?_
    · intro pair hpair
      obtain ⟨hmem, hsender⟩ := List.mem_filter.mp hpair
      obtain ⟨c, -, rfl⟩ := (h.pairs pair).mp hmem
      have hsender : c.sender env = call.sender env := of_decide_eq_true hsender
      rw [program, program, hsender]
    · exact List.mem_filter.mpr ⟨(h.pairs _).mpr ⟨call, hcall, rfl⟩, decide_eq_true rfl⟩
  rw [Plugin.sent, hpairs, List.flatMap_singleton, htarget]

/-- Nothing is sent through any other sender. -/
theorem Registered.sent_none {calls : List Call} {s : Plugin} (h : Registered env calls s)
    {sender : Sender} (hnone : ∀ call ∈ calls, call.sender env ≠ sender) (timestamp : ℚ)
    (processToken : String) : s.sent sender timestamp processToken = [] := by
  have hpairs : s.worker.targets.keys.filter (fun pair => pair.2 = sender) = [] := by
    refine List.filter_eq_nil_iff.mpr fun pair hpair hsender => ?_
    obtain ⟨call, hcall, rfl⟩ := (h.pairs pair).mp hpair
    exact hnone call hcall (of_decide_eq_true hsender)
  rw [Plugin.sent, hpairs, List.flatMap_nil]

/-- **Each engine is reported only where it was told to**: through every sender the
worker sends what the engines that were started with its arguments have done. -/
def ReportedWhereTold (env : Environment) (noneId : ℕ) (actions : List Action) : Prop :=
  ∀ sender timestamp processToken,
    (run env noneId actions).sent sender timestamp processToken =
      if sender ∈ (callsOf actions).map (Call.sender env) then
        sender.send (alone env noneId sender actions) timestamp Worker.interval processToken
      else []

/-- No engine is started twice, and a program name goes with one host name and one
destination. -/
def Separate (env : Environment) (calls : List Call) : Prop :=
  calls.Pairwise fun c c' => c.engine ≠ c'.engine ∧
    (program env c = program env c' → c.sender env = c'.sender env)

/-! ### Separate calls -/

theorem Separate.sender_eq {calls : List Call} (h : Separate env calls) {c c' : Call}
    (hc : c ∈ calls) (hc' : c' ∈ calls) (hprogram : program env c = program env c') :
    c.sender env = c'.sender env := by
  have hsymm : Std.Symm fun c c' : Call => program env c = program env c' →
      c.sender env = c'.sender env := ⟨fun _ _ h heq => (h heq.symm).symm⟩
  exact List.Pairwise.forall_of_forall (fun _ _ _ => rfl) (h.imp And.right) hc hc' hprogram

theorem Separate.eq_of_engine {calls : List Call} (h : Separate env calls) {c c' : Call}
    (hc : c ∈ calls) (hc' : c' ∈ calls) (hengine : c.engine = c'.engine) : c = c' := by
  by_contra hne
  have hnodup : (calls.map Call.engine).Nodup := List.pairwise_map.mpr (h.imp And.left)
  exact hne (List.inj_on_of_nodup_map hnodup hc hc' hengine)

/-- The collectors of an engine that was started once. -/
theorem listenersOf_run (noneId : ℕ) {actions : List Action} (h : Separate env (callsOf actions))
    (engine : ℕ) :
    (run env noneId actions).listenersOf engine = [] ∧
        (∀ call ∈ callsOf actions, call.engine ≠ engine) ∨
      ∃ call ∈ callsOf actions, call.engine = engine ∧
        (run env noneId actions).listenersOf engine = [program env call] := by
  rw [(registered_run env noneId actions).listenersOf]
  by_cases hstarted : ∃ call ∈ callsOf actions, call.engine = engine
  · obtain ⟨call, hcall, hengine⟩ := hstarted
    refine .inr ⟨call, hcall, hengine, ?_⟩
    have hnodup : (callsOf actions).Nodup :=
      h.imp fun hne heq => hne.1 (congrArg Call.engine heq)
    rw [eq_singleton_of_nodup (hnodup.filter _) (b := call)]
    · rfl
    · intro c hc
      obtain ⟨hc, hengine'⟩ := List.mem_filter.mp hc
      exact h.eq_of_engine hc hcall ((of_decide_eq_true hengine').trans hengine.symm)
    · exact List.mem_filter.mpr ⟨hcall, decide_eq_true hengine⟩
  · push Not at hstarted
    refine .inl ⟨?_, hstarted⟩
    rw [List.filter_eq_nil_iff.mpr fun call hcall => by simpa using hstarted call hcall]
    rfl

/-- Another call, separate from those before it. -/
theorem targets_start {actions : List Action} {new : Call}
    (h : Separate env (callsOf actions ++ [new]))
    (ih : ∀ call ∈ callsOf actions, (run env noneId actions).targets.get? (program env call) =
      some (alone env noneId (call.sender env) actions)) :
    ∀ call ∈ callsOf actions ++ [new],
      ((run env noneId actions).startPlugin env new).targets.get? (program env call) =
        some (aloneStep env noneId (call.sender env)
          (alone env noneId (call.sender env) actions) (.start new)) := by
  intro call hcall
  have hnew : new ∈ callsOf actions ++ [new] := List.mem_append_right _ List.mem_cons_self
  have hregistered := registered_run env noneId actions
  rw [targets_startPlugin, aloneStep]
  by_cases hprogram : program env call = program env new
  · have hsender := h.sender_eq hcall hnew hprogram
    have hfresh : new.engine ∉ (alone env noneId (call.sender env) actions).collectors := by
      intro hmem
      obtain ⟨c, hc, hengine, -⟩ := mem_collectors_alone.mp hmem
      exact ((List.pairwise_append.mp h).2.2 c hc new List.mem_cons_self).1 hengine
    rw [if_pos hprogram, if_pos ⟨hsender.symm, hfresh⟩]
    -- the target is new, or it is that of the calls with this program name
    cases hold : (run env noneId actions).targets.get? (program env new) with
    | some old =>
        obtain ⟨c, hc, hname⟩ := (hregistered.known _).mp (by rw [hold]; rfl)
        have htarget := ih c hc
        rw [hname, hold, h.sender_eq (List.mem_append_left _ hc) hnew hname, ← hsender] at htarget
        rw [Option.some.inj htarget]
        rfl
    | none =>
        have hempty : alone env noneId (call.sender env) actions = {} := by
          refine alone_eq_empty fun c hc hsame => ?_
          have hsome := (hregistered.known _).mpr
            ⟨c, hc, congrArg Sender.statsName (hsame.trans hsender)⟩
          rw [hold] at hsome
          cases hsome
        rw [hempty]
        rfl
  · have hother : ¬(new.sender env = call.sender env ∧
        new.engine ∉ (alone env noneId (call.sender env) actions).collectors) :=
      fun h => hprogram (congrArg Sender.statsName h.1).symm
    rw [if_neg hprogram, if_neg hother]
    rw [List.mem_append, List.mem_singleton] at hcall
    rcases hcall with hcall | rfl
    · exact ih call hcall
    · exact absurd rfl hprogram

/-- An event is counted by the target of its engine, and by no other. -/
theorem targets_event {actions : List Action} (h : Separate env (callsOf actions))
    (ih : ∀ call ∈ callsOf actions, (run env noneId actions).targets.get? (program env call) =
      some (alone env noneId (call.sender env) actions)) (engine : ℕ) (event : PoolEvent) :
    ∀ call ∈ callsOf actions,
      ((run env noneId actions).poolEvent noneId engine event).targets.get? (program env call) =
        some (aloneStep env noneId (call.sender env)
          (alone env noneId (call.sender env) actions) (.event engine event)) := by
  intro call hcall
  show (dispatch noneId event ((run env noneId actions).listenersOf engine)
    (run env noneId actions).targets).get? _ = _
  rw [aloneStep]
  rcases listenersOf_run noneId h engine with ⟨hnone, hother⟩ | ⟨owner, howner, rfl, hone⟩
  · have hnot : engine ∉ (alone env noneId (call.sender env) actions).collectors := by
      intro hmem
      obtain ⟨c, hc, hengine, -⟩ := mem_collectors_alone.mp hmem
      exact hother c hc hengine
    rw [hnone, if_neg hnot]
    exact ih call hcall
  · rw [hone, dispatch, ih owner howner]
    dsimp only
    rw [dispatch, ite_self, OrderedDict.get?_set]
    by_cases hprogram : program env call = program env owner
    · have hsender := h.sender_eq hcall howner hprogram
      have hmem : owner.engine ∈ (alone env noneId (call.sender env) actions).collectors :=
        mem_collectors_alone.mpr ⟨owner, howner, rfl, hsender.symm⟩
      rw [if_pos hprogram, if_pos hmem, hsender]
    · have hnot : owner.engine ∉ (alone env noneId (call.sender env) actions).collectors := by
        intro hmem
        obtain ⟨c, hc, hengine, hsender⟩ := mem_collectors_alone.mp hmem
        obtain rfl := h.eq_of_engine hc howner hengine
        exact hprogram (congrArg Sender.statsName hsender).symm
      rw [if_neg hprogram, if_neg hnot, ih call hcall]

/-- **Separate engines do not meet**: a target is what it would be for the engines of its
sender alone. -/
theorem targets_run {actions : List Action} (h : Separate env (callsOf actions)) :
    ∀ call ∈ callsOf actions, (run env noneId actions).targets.get? (program env call) =
      some (alone env noneId (call.sender env) actions) := by
  induction actions using List.reverseRecOn with
  | nil => intro call hcall; cases hcall
  | append_singleton actions action ih =>
      intro call hcall
      rw [callsOf_append] at h hcall
      have hbefore : Separate env (callsOf actions) := (List.pairwise_append.mp h).1
      rw [run_append, alone_append]
      cases action with
      | start new => exact targets_start h (ih hbefore) call hcall
      | event engine event =>
          refine targets_event hbefore (ih hbefore) engine event call ?_
          simpa [callsOf] using hcall

/-! ### Calls that are not separate -/

theorem callsOf_starts (calls : List Call) : callsOf (calls.map Action.start) = calls := by
  rw [callsOf, List.filterMap_map]
  exact List.filterMap_some

/-- Targets whose pools have not been used yet. -/
theorem unused_starts (env : Environment) (noneId : ℕ) (calls : List Call) (name : String) :
    ∀ target ∈ (run env noneId (calls.map .start)).targets.get? name,
      target.checkedin = ∅ ∧ target.totalCheckouts = 0 := by
  induction calls using List.reverseRecOn generalizing name with
  | nil => intro target htarget; cases htarget
  | append_singleton calls call ih =>
      intro target htarget
      rw [List.map_append, List.map_singleton, run_append, Option.mem_def] at htarget
      rw [show step env noneId (run env noneId (calls.map .start)) (.start call) =
        startPlugin env call _ from rfl, targets_startPlugin] at htarget
      split at htarget
      · rw [← Option.some.inj htarget, enlist]
        cases hold : (run env noneId (calls.map .start)).targets.get? (program env call) with
        | none => exact ⟨rfl, rfl⟩
        | some old => exact ih _ old hold
      · exact ih name target htarget

/-- A checkout that the first listener raises on is kept from the others. -/
theorem dispatch_checkout {name : String} {targets : OrderedDict String CollectionTarget}
    {target : CollectionTarget} {id : ℕ} (hget : targets.get? name = some target)
    (hid : id ∉ target.checkedin) (names : List String) :
    dispatch noneId (.checkout id) (name :: names) targets =
      targets.set name { target with totalCheckouts := target.totalCheckouts + 1 } := by
  rw [dispatch, hget]
  have hhandle : handle noneId target (.checkout id) =
      ({ target with totalCheckouts := target.totalCheckouts + 1 }, [.keyError id]) := by
    rw [handle, checkoutEvt]
    exact if_neg hid
  dsimp only
  rw [hhandle]
  rfl

section Necessity

variable {calls : List Call}
  (h : ∀ actions, callsOf actions = calls → ReportedWhereTold env noneId actions)

include h

/-- What a sender sends is right for the pools before anything happens in them. -/
theorem engines_of_reported {call : Call} (hcall : call ∈ calls) :
    (calls.filter fun c => c.sender env = call.sender env) =
        calls.filter (fun c => program env c = program env call) ∧
      ((calls.filter fun c => c.sender env = call.sender env).map Call.engine).Nodup := by
  have hstarts := callsOf_starts calls
  have hregistered := registered_run env noneId (calls.map .start)
  have hsublist := collectors_alone_sublist env noneId (call.sender env) (calls.map .start)
  rw [hstarts] at hregistered hsublist
  obtain ⟨target, htarget⟩ := hregistered.exists_target hcall
  have hsent := h _ hstarts (call.sender env) 0 ""
  rw [hregistered.sent hcall htarget, hstarts, if_pos (List.mem_map_of_mem hcall)] at hsent
  have hpools := (Sender.send_inj hsent).1
  rw [CollectionTarget.numPools, CollectionTarget.numPools,
    hregistered.collectors _ target htarget, List.length_map] at hpools
  have hlength := hsublist.1.length_le
  rw [List.length_map] at hlength
  have hfilter : (calls.filter fun c => c.sender env = call.sender env).Sublist
      (calls.filter fun c => program env c = program env call) := by
    refine List.monotone_filter_right _ fun c hc => ?_
    simp only [decide_eq_true_eq] at hc ⊢
    exact congrArg Sender.statsName hc
  have heq := hfilter.eq_of_length_le (by omega)
  refine ⟨heq, ?_⟩
  have hengines := hsublist.1.eq_of_length_le (by rw [List.length_map, heq]; omega)
  rw [← hengines]
  exact hsublist.2

/-- An engine with collectors for two programs is not reported right to both. -/
theorem not_reported_twice {c d : Call} (hc : c ∈ calls) (hd : d ∈ calls)
    (hengine : c.engine = d.engine) : program env c = program env d := by
  by_contra hne
  have hregistered := registered_run env noneId (calls.map .start)
  rw [callsOf_starts] at hregistered
  obtain ⟨s, hs⟩ : ∃ s, s = run env noneId (calls.map .start) := ⟨_, rfl⟩
  rw [← hs] at hregistered
  obtain ⟨first, rest, hfirst⟩ := List.exists_cons_of_ne_nil
    (List.ne_nil_of_mem (hregistered.mem_listenersOf.mpr ⟨c, hc, rfl, rfl⟩))
  -- one of the two does not come first
  obtain ⟨late, hlate, hsame, hother⟩ : ∃ late ∈ calls, late.engine = c.engine ∧
      program env late ≠ first := by
    by_cases hcfirst : program env c = first
    · exact ⟨d, hd, hengine.symm, fun heq => hne (hcfirst.trans heq.symm)⟩
    · exact ⟨c, hc, rfl, hcfirst⟩
  obtain ⟨owner, howner, -, hname⟩ :=
    hregistered.mem_listenersOf.mp (hfirst ▸ List.mem_cons_self : first ∈ s.listenersOf c.engine)
  obtain ⟨target, hfound⟩ := hregistered.exists_target howner
  obtain ⟨missed, hmissed⟩ := hregistered.exists_target hlate
  rw [hname] at hfound
  have hunused := unused_starts env noneId calls
  rw [← hs] at hunused
  -- the first target raises, the late one does not hear of the checkout
  obtain ⟨actions, hactions⟩ : ∃ actions, actions =
      calls.map Action.start ++ [.event c.engine (.checkout 0)] := ⟨_, rfl⟩
  have hcalls : callsOf actions = calls := by
    rw [hactions, callsOf_append, callsOf_starts]
    exact List.append_nil _
  have hafter : (run env noneId actions).targets.get? (program env late) = some missed := by
    rw [hactions, run_append, ← hs]
    show (dispatch noneId (.checkout 0) (s.listenersOf c.engine) s.targets).get? _ = _
    rw [hfirst, dispatch_checkout hfound (by simp [(hunused first target hfound).1]),
      OrderedDict.get?_set_of_ne _ _ hother, hmissed]
  have hsent := h actions hcalls (late.sender env) 0 ""
  have hregistered' := registered_run env noneId actions
  rw [hcalls] at hregistered' hsent
  rw [hregistered'.sent hlate hafter, if_pos (List.mem_map_of_mem hlate)] at hsent
  have hcheckouts := (Sender.send_inj hsent).2
  have hlistens : c.engine ∈ (alone env noneId (late.sender env) (calls.map .start)).collectors := by
    refine mem_collectors_alone.mpr ⟨late, ?_, hsame, rfl⟩
    rw [callsOf_starts]
    exact hlate
  have hcounted : ∀ target : CollectionTarget,
      (handle noneId target (.checkout 0)).1.totalCheckouts = target.totalCheckouts + 1 := by
    intro target
    rw [handle, checkoutEvt]
    split <;> rfl
  rw [(hunused _ missed hmissed).2, hactions, alone_append, aloneStep, if_pos hlistens,
    hcounted] at hcheckouts
  omega

theorem separate_of_reported : Separate env calls := by
  refine List.pairwise_iff_forall_sublist.mpr fun {c c'} hsub => ?_
  have hc : c ∈ calls := hsub.subset List.mem_cons_self
  have hc' : c' ∈ calls := hsub.subset (by simp)
  obtain ⟨hfilter, hnodup⟩ := engines_of_reported h hc
  have hsender : program env c = program env c' → c.sender env = c'.sender env := by
    intro hprogram
    have hmem : c' ∈ calls.filter fun d => program env d = program env c :=
      List.mem_filter.mpr ⟨hc', decide_eq_true hprogram.symm⟩
    rw [← hfilter] at hmem
    exact (of_decide_eq_true (List.mem_filter.mp hmem).2).symm
  refine ⟨fun hengine => ?_, hsender⟩
  have hsame := hsender (not_reported_twice h hc hc' hengine)
  have hboth := (hsub.filter fun d => d.sender env = c.sender env).map Call.engine
  rw [List.filter_cons_of_pos (by simp), List.filter_cons_of_pos (by simp [hsame])] at hboth
  have htwice := hnodup.sublist hboth
  simp [hengine] at htwice

end Necessity

/-- **When each engine is reported only where it was told to**: in every run with these
calls, whatever happens in the pools, if and only if the calls are separate. -/
theorem reported_where_told_iff (env : Environment) (noneId : ℕ) (calls : List Call) :
    (∀ actions, callsOf actions = calls → ReportedWhereTold env noneId actions) ↔
      Separate env calls := by
  constructor
  · exact separate_of_reported
  · rintro h actions rfl sender timestamp processToken
    have hregistered := registered_run env noneId actions
    split
    · rename_i hstarted
      obtain ⟨call, hcall, rfl⟩ := List.mem_map.mp hstarted
      exact hregistered.sent hcall (targets_run h call hcall) timestamp processToken
    · rename_i hnever
      refine hregistered.sent_none (fun call hcall heq => hnever ?_) timestamp processToken
      exact heq ▸ List.mem_map_of_mem hcall

/-- Two engines of the program `web` with different destinations, and a connection of
the second. -/
def twoDestinations : List Action :=
  [.start { engine := 1, progname := "web", collectdHost := "10.0.0.1" },
    .start { engine := 2, progname := "web" }, .event 2 (.connect 7)]

/-- The connection is sent to the destination of the first engine as well. -/
theorem reported_elsewhere_twoDestinations :
    ¬ReportedWhereTold ⟨"h1", "python"⟩ 0 twoDestinations ∧
      ((run ⟨"h1", "python"⟩ 0 twoDestinations).sent ⟨"h1", "web", "10.0.0.1", 25827⟩ 1000
          "1:aa").map Values.values =
        [[.int 2, .int 0, .int 1, .int 0, .int 1], [.int 0, .int 0, .int 1, .int 0]] := by
  have hsent : ((run ⟨"h1", "python"⟩ 0 twoDestinations).sent ⟨"h1", "web", "10.0.0.1", 25827⟩
      1000 "1:aa").map Values.values =
        [[.int 2, .int 0, .int 1, .int 0, .int 1], [.int 0, .int 0, .int 1, .int 0]] := by
    decide +kernel
  refine ⟨fun h => ?_, hsent⟩
  rw [h] at hsent
  exact absurd hsent (by decide +kernel)

end Plugin

end SqlalchemyCollectd
