import WebPipe.Debugger.Session
import WebPipe.Lib.Runs

/-!
# Threads after `disconnect`

`disconnect` resumes the threads that it finds paused. It removes neither the breakpoints nor the stepping modes, so a thread that
comes to one of them later pauses with no client to resume it, and it does not see a thread that is on its way to pause.
`no_thread_waits` says that no thread waits after `disconnect` in a run where neither happens.
-/

namespace WebPipe

/-- The call of `before_step` is on its way to the table of paused threads. -/
def HookCall.pausing (v : HookCall) : Bool :=
  match v.phase with
  | .looked atBreakpoint => atBreakpoint
  | .announcing | .announced | .starting | .unstepping | .parking => true
  | _ => false

/-- The call of `before_step` has been in the table of paused threads. -/
def HookCall.parked (v : HookCall) : Bool :=
  match v.phase with
  | .stopping | .awaiting | .done _ => true
  | _ => false

/-- The call of `before_step` is resumed through its channel and nothing else. -/
def HookCall.listens (v : HookCall) : Bool :=
  match v.phase, v.channel with
  | .stopping, .open | .awaiting, .open => true
  | _, _ => false

/-- The step reads a shard. -/
def ServerOp.collects (shard : Nat) : ServerOp → Bool
  | .collect k => k == shard
  | _ => false

namespace Session

/-- A call finds a reason to pause where it is about to look for one. -/
def findsReason (s : Session) (v : HookCall) : Bool :=
  match v.phase with
  | .entered => s.server.atBreakpoint v.location
  | .looked atBreakpoint => atBreakpoint || s.server.shouldPauseStep v.threadId v.stack.length
  | _ => false

/-- `handle_disconnect` has read the shard of a thread. -/
def collected (sharding : Sharding) (s : Session) (threadId : Nat) : Bool :=
  s.disconnecting && !s.todo.any (·.collects (sharding.shardOf threadId))

/-- When `handle_disconnect` reads a shard, no thread of the shard is on its way to pause; afterwards no thread of it finds a reason to. -/
def letsGo (sharding : Sharding) (s : Session) : Move → Bool
  | .serve _ =>
    match s.todo with
    | .collect shard :: _ => s.calls.all fun v => !(sharding.shardOf v.threadId == shard && v.pausing)
    | _ => true
  | .advance i _ =>
    match s.calls[i]? with
    | some v => !(s.collected sharding v.threadId && s.findsReason v)
    | none => true
  | _ => true

end Session

/-- A step of a handler other than `handle_disconnect`. -/
def ServerOp.ordinary : ServerOp → Bool
  | .collect _ | .resumeCollected | .clearAnnounced | .leave => false
  | _ => true

/-- What `handle_disconnect` does. -/
def disconnectOps (sharding : Sharding) : List ServerOp :=
  (List.range sharding.count).map .collect ++ [.resumeCollected, .clearAnnounced, .leave]

/-- The table of paused threads holds every call that listens. -/
structure Linked (s : Session) : Prop where
  /-- A call that listens has an entry in the table. -/
  listening : ∀ i v, s.calls[i]? = some v → v.listens = true →
    ∃ paused, s.server.pausedThreads.lookup v.threadId = some paused ∧ paused.resumeTx = i
  /-- An entry of the table is of a call that has been there. -/
  entered : ∀ t paused, s.server.pausedThreads.lookup t = some paused →
    ∃ v, s.calls[paused.resumeTx]? = some v ∧ v.parked = true

/-- What holds in every state of a run that lets threads go. -/
structure Orderly (sharding : Sharding) (s : Session) : Prop extends Linked s where
  ordinary : s.disconnecting = false → ∀ op ∈ s.todo, op.ordinary = true
  shape : s.disconnecting = true → s.todo <:+ disconnectOps sharding
  leaving : s.disconnecting = true → s.ended = true ∨ .leave ∈ s.todo
  ended : s.ended = true → s.todo = []
  /-- A thread is on its way to pause only while its shard is still to be read. -/
  onTheWay : s.disconnecting = true → ∀ v ∈ s.calls, v.pausing = true → .collect (sharding.shardOf v.threadId) ∈ s.todo
  /-- A paused thread is still to be read or still to be resumed. -/
  left : s.disconnecting = true → ∀ t ∈ s.server.pausedThreads,
    .collect (sharding.shardOf t) ∈ s.todo ∨ (t ∈ s.threadIds ∧ .resumeCollected ∈ s.todo)

variable {sharding : Sharding} {s s' : Session} {v v' : HookCall} {i : Nat}

/-! ## Calls -/

theorem HookCall.pausing_congr (h : v'.phase = v.phase) : v'.pausing = v.pausing := by
  simp [HookCall.pausing, h]

/-- A call that listens has its channel open. -/
theorem HookCall.open_of_listens (h : v.listens = true) : v.channel = .open := by
  unfold listens at h
  split at h <;> first | assumption | contradiction

/-- A call that waits listens. -/
theorem HookCall.listens_of_waits (h : v.waits = true) : v.listens = true := by
  unfold waits at h
  split at h
  · simp [listens, *]
  · contradiction

/-- Putting something into a channel changes this channel and nothing else. -/
theorem getElem?_setChannel {j : Nat} {channel : Channel} (h : (s.setChannel j channel).calls[i]? = some v') :
    ∃ v, s.calls[i]? = some v ∧ v'.threadId = v.threadId ∧ v'.phase = v.phase ∧ (i = j → v'.channel = channel) ∧
      (i ≠ j → v' = v) := by
  simp only [Session.setChannel, List.getElem?_modify, Option.map_eq_map, Option.map_eq_some_iff] at h
  obtain ⟨v, hv, rfl⟩ := h
  refine ⟨v, hv, ?_⟩
  split_ifs with hij
  · exact ⟨rfl, rfl, fun _ => rfl, fun hne => absurd hij.symm hne⟩
  · exact ⟨rfl, rfl, fun heq => absurd heq.symm hij, fun _ => rfl⟩

/-- Setting a channel leaves a parked call parked. -/
theorem parked_setChannel {j : Nat} {channel : Channel} (h : ∃ v, s.calls[i]? = some v ∧ v.parked = true) :
    ∃ v, (s.setChannel j channel).calls[i]? = some v ∧ v.parked = true := by
  obtain ⟨v, hv, hparked⟩ := h
  simp only [Session.setChannel, List.getElem?_modify, hv]
  split_ifs
  · exact ⟨_, rfl, hparked⟩
  · exact ⟨v, rfl, hparked⟩

/-! ## The table -/

/-- A call that goes on without entering the table keeps it linked when it does not start to listen. -/
theorem Linked.set (h : Linked s) (hv : s.calls[i]? = some v) (htable : s'.server.pausedThreads = s.server.pausedThreads)
    (hcalls : s'.calls = s.calls.set i v') (hthread : v'.threadId = v.threadId) (hlistens : v'.listens = true → v.listens = true)
    (hparked : v.parked = true → v'.parked = true) : Linked s' where
  listening j w hw hl := by
    rw [hcalls, List.getElem?_set] at hw
    rw [htable]
    split_ifs at hw with hij
    · subst hij
      cases hw
      rw [hthread]
      exact h.listening i v hv (hlistens hl)
    · exact h.listening j w hw hl
  entered t paused hp := by
    rw [htable] at hp
    rw [hcalls]
    obtain ⟨w, hw, hbeen⟩ := h.entered t paused hp
    by_cases hi : i = paused.resumeTx
    · subst hi
      rw [hv] at hw
      cases hw
      exact ⟨v', List.getElem?_set_self (List.getElem?_eq_some_iff.mp hv).1, hparked hbeen⟩
    · exact ⟨w, by rw [List.getElem?_set_ne hi, hw], hbeen⟩

/-- Once the entry of a thread is gone or replaced and its channel no longer open, the calls that listen are of other threads. -/
theorem Linked.listening_other (h : Linked s) {t j : Nat} {channel : Channel} {paused : PausedState}
    (hpaused : s.server.pausedThreads.lookup t = some paused) (hopen : channel ≠ .open)
    (hw : (s.setChannel paused.resumeTx channel).calls[j]? = some v') (hl : v'.listens = true) :
    v'.threadId ≠ t ∧ ∃ entry, s.server.pausedThreads.lookup v'.threadId = some entry ∧ entry.resumeTx = j := by
  obtain ⟨v, hv, hthread, -, hsent, hother⟩ := getElem?_setChannel hw
  have hj : j ≠ paused.resumeTx := by
    intro heq
    exact hopen ((hsent heq).symm.trans (HookCall.open_of_listens hl))
  obtain rfl := hother hj
  obtain ⟨entry, hentry, htx⟩ := h.listening j v' hv hl
  refine ⟨?_, entry, hentry, htx⟩
  rintro rfl
  rw [hpaused] at hentry
  cases hentry
  exact hj htx.symm

/-- Taking a thread from the table and resuming it keeps the table linked. -/
theorem Linked.resume (h : Linked s) (t : Nat) (command : Option Value → StepCommand) : Linked (s.resume t command) := by
  unfold Session.resume
  cases hpaused : s.server.pausedThreads.lookup t with
  | none => exact h
  | some paused =>
    constructor
    · intro j w hw hl
      have hsent : Channel.sent (command (some paused.state)) ≠ .open := nofun
      obtain ⟨hne, entry, hentry, htx⟩ := h.listening_other hpaused hsent hw hl
      exact ⟨entry, (AList.lookup_erase_ne hne).trans hentry, htx⟩
    · intro t' entry hentry
      have hold : s.server.pausedThreads.lookup t' = some entry := by
        by_cases heq : t' = t
        · subst heq
          have hgone : AList.lookup t' (AList.erase t' s.server.pausedThreads) = some entry := hentry
          rw [AList.lookup_erase] at hgone
          contradiction
        · exact (AList.lookup_erase_ne heq).symm.trans hentry
      exact parked_setChannel (h.entered t' entry hold)

/-- When the entry of a thread is dropped, the calls that still listen are of other threads. -/
theorem Linked.closeEntry (h : Linked s) {t j : Nat} (hw : (s.closeEntry t).calls[j]? = some v') :
    (∃ v, s.calls[j]? = some v ∧ v'.threadId = v.threadId ∧ v'.phase = v.phase) ∧ (v'.listens = true → v'.threadId ≠ t ∧
      ∃ entry, s.server.pausedThreads.lookup v'.threadId = some entry ∧ entry.resumeTx = j) := by
  unfold Session.closeEntry at hw
  split at hw
  · rename_i hnone
    refine ⟨⟨v', hw, rfl, rfl⟩, fun hl => ?_⟩
    obtain ⟨entry, hentry, htx⟩ := h.listening j v' hw hl
    refine ⟨?_, entry, hentry, htx⟩
    rintro rfl
    rw [hnone] at hentry
    contradiction
  · rename_i paused hpaused
    obtain ⟨v, hv, hthread, hphase, -⟩ := getElem?_setChannel hw
    have hclosed : Channel.closed ≠ .open := nofun
    exact ⟨⟨v, hv, hthread, hphase⟩, fun hl => h.listening_other hpaused hclosed hw hl⟩

/-- A thread that enters the table takes the place of an entry of its own, whose channel is closed. -/
theorem Linked.park (h : Linked s) (hv : s.calls[i]? = some v) : Linked (s.park i v) := by
  have hcalls : (s.park i v).calls = (s.closeEntry v.threadId).calls.set i { v with phase := .stopping } := rfl
  have htable : (s.park i v).server.pausedThreads =
      s.server.pausedThreads.insert v.threadId { resumeTx := i, state := v.state, stack := v.stack } := rfl
  constructor
  · intro j w hw hl
    rw [hcalls, List.getElem?_set] at hw
    rw [htable]
    split_ifs at hw with hij
    · cases hw
      exact ⟨_, AList.lookup_insert _, hij⟩
    · obtain ⟨hne, entry, hentry, htx⟩ := (h.closeEntry hw).2 hl
      exact ⟨entry, (AList.lookup_insert_ne hne).trans hentry, htx⟩
  · intro t paused hpaused
    rw [htable] at hpaused
    rw [hcalls]
    by_cases hi : i = paused.resumeTx
    · subst hi
      have hlt : paused.resumeTx < (s.closeEntry v.threadId).calls.length := by
        have := (List.getElem?_eq_some_iff.mp hv).1
        unfold Session.closeEntry
        split <;> simpa [Session.setChannel] using this
      exact ⟨_, List.getElem?_set_self hlt, rfl⟩
    · rw [List.getElem?_set_ne hi]
      have hold : s.server.pausedThreads.lookup t = some paused := by
        by_cases ht : t = v.threadId
        · subst ht
          rw [AList.lookup_insert, Option.some.injEq] at hpaused
          subst hpaused
          exact absurd rfl hi
        · exact (AList.lookup_insert_ne ht).symm.trans hpaused
      unfold Session.closeEntry
      split
      · exact h.entered t paused hold
      · exact parked_setChannel (h.entered t paused hold)

/-! ## Steps of threads -/

/-- The work of the server is the same. -/
structure SameWork (s s' : Session) : Prop where
  todo : s'.todo = s.todo
  threadIds : s'.threadIds = s.threadIds
  ended : s'.ended = s.ended
  disconnecting : s'.disconnecting = s.disconnecting

theorem any_collects {shard : Nat} {todo : List ServerOp} : todo.any (·.collects shard) = true ↔ .collect shard ∈ todo := by
  rw [List.any_eq_true]
  constructor
  · rintro ⟨op, hop, hshard⟩
    cases op <;> simp_all [ServerOp.collects]
  · exact fun h => ⟨_, h, by simp [ServerOp.collects]⟩

/-- The shard of a thread that has not been read is still to be read. -/
theorem mem_of_not_collected {t : Nat} (hd : s.disconnecting = true) (h : s.collected sharding t = false) :
    .collect (sharding.shardOf t) ∈ s.todo := by
  rw [← any_collects]
  simpa [Session.collected, hd] using h

/-- A step of a thread keeps the session in order when it leads to a pause, or into the table, only where the shard of the thread is
still to be read. -/
theorem Orderly.thread (h : Orderly sharding s) (hlinked : Linked s') (hsame : SameWork s s')
    (hpausing : ∀ w ∈ s'.calls, w.pausing = true →
      (∃ v ∈ s.calls, w.threadId = v.threadId ∧ v.pausing = true) ∨ s.collected sharding w.threadId = false)
    (htable : ∀ t ∈ s'.server.pausedThreads, t ∈ s.server.pausedThreads ∨ s.collected sharding t = false) : Orderly sharding s' where
  toLinked := hlinked
  ordinary hd := by
    rw [hsame.todo]
    exact h.ordinary (hsame.disconnecting ▸ hd)
  shape hd := by
    rw [hsame.todo]
    exact h.shape (hsame.disconnecting ▸ hd)
  leaving hd := by
    rw [hsame.todo, hsame.ended]
    exact h.leaving (hsame.disconnecting ▸ hd)
  ended he := by
    rw [hsame.todo]
    exact h.ended (hsame.ended ▸ he)
  onTheWay hd w hw hp := by
    rw [hsame.disconnecting] at hd
    rw [hsame.todo]
    rcases hpausing w hw hp with ⟨v, hv, hthread, hold⟩ | hnot
    · rw [hthread]
      exact h.onTheWay hd v hv hold
    · exact mem_of_not_collected hd hnot
  left hd t ht := by
    rw [hsame.disconnecting] at hd
    rw [hsame.todo, hsame.threadIds]
    rcases htable t ht with hold | hnot
    · exact h.left hd t hold
    · exact .inl (mem_of_not_collected hd hnot)

/-- A call that goes on outside of the table. -/
theorem Orderly.set (h : Orderly sharding s) (hv : s.calls[i]? = some v) (htable : s'.server.pausedThreads = s.server.pausedThreads)
    (hsame : SameWork s s') (hcalls : s'.calls = s.calls.set i v') (hthread : v'.threadId = v.threadId)
    (hlistens : v'.listens = true → v.listens = true) (hparked : v.parked = true → v'.parked = true)
    (hpausing : v'.pausing = true → v.pausing = true ∨ s.collected sharding v.threadId = false) : Orderly sharding s' := by
  refine h.thread (h.toLinked.set hv htable hcalls hthread hlistens hparked) hsame (fun w hw hp => ?_) fun t ht => .inl (htable ▸ ht)
  rw [hcalls] at hw
  rcases List.mem_or_eq_of_mem_set hw with hw | rfl
  · exact .inl ⟨w, hw, rfl, hp⟩
  · rcases hpausing hp with hold | hnot
    · exact .inl ⟨v, List.mem_of_getElem? hv, hthread, hold⟩
    · rw [hthread]
      exact .inr hnot

/-- While a thread is on its way to pause, its shard is still to be read. -/
theorem Orderly.not_collected (h : Orderly sharding s) (hv : s.calls[i]? = some v) (hp : v.pausing = true) :
    s.collected sharding v.threadId = false := by
  cases hd : s.disconnecting with
  | false => simp [Session.collected, hd]
  | true =>
    have := any_collects.mpr (h.onTheWay hd v (List.mem_of_getElem? hv) hp)
    simp [Session.collected, this]

/-- A call that parks keeps the session orderly. -/
theorem Orderly.park (h : Orderly sharding s) (hv : s.calls[i]? = some v) (hphase : v.phase = .parking) :
    Orderly sharding (s.park i v) := by
  have hpausing : v.pausing = true := by simp [HookCall.pausing, hphase]
  have hwork : SameWork s (s.closeEntry v.threadId) := by
    unfold Session.closeEntry
    split <;> exact ⟨rfl, rfl, rfl, rfl⟩
  have hcalls : (s.park i v).calls = (s.closeEntry v.threadId).calls.set i { v with phase := .stopping } := rfl
  refine h.thread (h.toLinked.park hv) ⟨hwork.1, hwork.2, hwork.3, hwork.4⟩ (fun w hw hp => ?_) fun t ht => ?_
  · rw [hcalls] at hw
    rcases List.mem_or_eq_of_mem_set hw with hw | rfl
    · obtain ⟨j, hj⟩ := List.mem_iff_getElem?.mp hw
      obtain ⟨⟨v₀, hv₀, hthread, hsame⟩, -⟩ := h.toLinked.closeEntry hj
      rw [HookCall.pausing_congr hsame] at hp
      exact .inl ⟨v₀, List.mem_of_getElem? hv₀, hthread, hp⟩
    · contradiction
  · rcases (AList.mem_insert _).mp ht with rfl | hold
    · exact .inr (h.not_collected hv hpausing)
    · exact .inl hold

/-- A thread that finds no reason to pause once its shard has been read keeps the session in order. -/
theorem Orderly.advance (h : Orderly sharding s) (written : Except String Unit)
    (hlet : s.letsGo sharding (.advance i written) = true) : Orderly sharding (s.advance i written) := by
  unfold Session.advance
  cases hv : s.calls[i]? with
  | none => exact h
  | some v =>
    have hreason : s.findsReason v = true → s.collected sharding v.threadId = false := by
      intro hfound
      simpa [Session.letsGo, hv, hfound] using hlet
    have hnot := h.not_collected hv
    dsimp only
    rcases hphase : v.phase with _ | atBreakpoint | _ | _ | _ | _ | _ | _ | _ | result
    · refine h.set hv rfl ⟨rfl, rfl, rfl, rfl⟩ rfl rfl ?_ ?_ fun hp => .inr (hreason ?_)
      all_goals simp_all [HookCall.listens, HookCall.parked, HookCall.pausing, Session.findsReason]
    · dsimp only
      split_ifs with hpause
      · refine h.set hv rfl ⟨rfl, rfl, rfl, rfl⟩ rfl rfl ?_ ?_ fun hp => .inr (hreason ?_)
        all_goals simp_all [HookCall.listens, HookCall.parked, HookCall.pausing, Session.findsReason]
      · refine h.set hv rfl ⟨rfl, rfl, rfl, rfl⟩ rfl rfl ?_ ?_ ?_
        all_goals simp_all [HookCall.listens, HookCall.parked, HookCall.pausing]
    · refine h.set hv rfl ⟨rfl, rfl, rfl, rfl⟩ rfl rfl ?_ ?_ ?_
      all_goals split_ifs <;> simp [HookCall.listens, HookCall.parked, HookCall.pausing, hphase]
    · refine h.set hv rfl ⟨rfl, rfl, rfl, rfl⟩ rfl rfl ?_ ?_ ?_
      all_goals simp [HookCall.listens, HookCall.parked, HookCall.pausing, hphase]
    · cases written <;> refine h.set hv rfl ⟨rfl, rfl, rfl, rfl⟩ rfl rfl ?_ ?_ ?_
      all_goals simp [HookCall.listens, HookCall.parked, HookCall.pausing, hphase]
    · refine h.set hv rfl ⟨rfl, rfl, rfl, rfl⟩ rfl rfl ?_ ?_ ?_
      all_goals simp [HookCall.listens, HookCall.parked, HookCall.pausing, hphase]
    · exact h.park hv hphase
    · cases written <;> refine h.set hv rfl ⟨rfl, rfl, rfl, rfl⟩ rfl rfl ?_ ?_ ?_
      all_goals
        simp only [HookCall.listens, HookCall.parked, HookCall.pausing, hphase]
        cases v.channel <;> simp
    · rcases hchannel : v.channel with _ | command | _
      · exact h
      all_goals
        refine h.set hv rfl ⟨rfl, rfl, rfl, rfl⟩ rfl rfl ?_ ?_ ?_
        all_goals simp [HookCall.listens, HookCall.parked, HookCall.pausing, hphase]
    · exact h

/-! ## Steps of the server -/

/-- A thread that is resumed is no longer paused, and no other is changed. -/
theorem mem_resume {t t' : Nat} {command : Option Value → StepCommand} :
    t' ∈ (s.resume t command).server.pausedThreads ↔ t' ≠ t ∧ t' ∈ s.server.pausedThreads := by
  unfold Session.resume
  cases hpaused : s.server.pausedThreads.lookup t with
  | none =>
    refine ⟨fun ht => ⟨?_, ht⟩, And.right⟩
    rintro rfl
    exact AList.lookup_eq_none.mp hpaused ht
  | some paused => exact AList.mem_erase

/-- Resuming a thread changes no work of the server. -/
theorem sameWork_resume (t : Nat) (command : Option Value → StepCommand) : SameWork s (s.resume t command) := by
  unfold Session.resume
  split <;> exact ⟨rfl, rfl, rfl, rfl⟩

/-- A resumed call is where it was. -/
theorem calls_resume {t : Nat} {command : Option Value → StepCommand} (hw : v' ∈ (s.resume t command).calls) :
    ∃ v ∈ s.calls, v'.threadId = v.threadId ∧ v'.pausing = v.pausing := by
  unfold Session.resume at hw
  split at hw
  · exact ⟨v', hw, rfl, rfl⟩
  · obtain ⟨j, hj⟩ := List.mem_iff_getElem?.mp hw
    obtain ⟨v, hv, hthread, hphase, -⟩ := getElem?_setChannel hj
    exact ⟨v, List.mem_of_getElem? hv, hthread, HookCall.pausing_congr hphase⟩

/-- The steps of `handle_disconnect` are no ordinary ones. -/
theorem not_ordinary_of_mem {op : ServerOp} (h : op ∈ disconnectOps sharding) : op.ordinary = false := by
  unfold disconnectOps at h
  rcases List.mem_append.mp h with h | h
  · obtain ⟨k, -, rfl⟩ := List.mem_map.mp h
    rfl
  · simp only [List.mem_cons, List.not_mem_nil, or_false] at h
    rcases h with rfl | rfl | rfl <;> rfl

/-- After the shards the threads that were read are resumed. -/
theorem resumeCollected_mem {shard : Nat} {todo : List ServerOp} (h : .collect shard :: todo <:+ disconnectOps sharding) :
    .resumeCollected ∈ todo := by
  obtain ⟨pre, h⟩ := h
  rcases List.append_eq_append_iff.mp h with ⟨a, -, ha⟩ | ⟨a, -, ha⟩
  · cases a with
    | nil => simp at ha
    | cons op a =>
      simp only [List.cons_append, List.cons.injEq] at ha
      simp [ha.2]
  · have : ServerOp.collect shard ∈ [.resumeCollected, .clearAnnounced, .leave] := by simp [ha]
    simp at this

/-- Nothing is left to do after the loop is left. -/
theorem leave_last {todo : List ServerOp} (h : .leave :: todo <:+ disconnectOps sharding) : todo = [] := by
  obtain ⟨pre, h⟩ := h
  have hsplit : disconnectOps sharding =
      ((List.range sharding.count).map .collect ++ [.resumeCollected, .clearAnnounced]) ++ [.leave] := by
    simp [disconnectOps]
  rw [hsplit] at h
  rcases List.append_eq_append_iff.mp h with ⟨a, hpre, ha⟩ | ⟨a, -, ha⟩
  · cases a with
    | nil => simpa using ha
    | cons op a =>
      simp only [List.cons_append, List.cons.injEq] at ha
      have : ServerOp.leave ∈ (List.range sharding.count).map ServerOp.collect ++ [.resumeCollected, .clearAnnounced] := by
        simp [hpre, ← ha.1]
      simp at this
  · cases a <;> simp_all

/-- A step of a handler other than `handle_disconnect` keeps the session in order. -/
theorem Orderly.ordinaryOp (h : Orderly sharding s) (hd : s.disconnecting = false) (written : Except String Unit) :
    Orderly sharding (s.serve sharding written) := by
  have hkeeps : ∀ {s'' : Session}, Linked s'' → s''.disconnecting = false → (∀ op ∈ s''.todo, op.ordinary = true) →
      (s''.ended = true → s''.todo = []) → Orderly sharding s'' := by
    intro s'' hlinked hd' hordinary hended
    have hnot : ∀ {P : Prop}, s''.disconnecting = true → P := by
      intro P hd''
      rw [hd'] at hd''
      contradiction
    exact ⟨hlinked, fun _ => hordinary, hnot, hnot, hended, hnot, hnot⟩
  have hold := h.ordinary hd
  unfold Session.serve
  cases htodo : s.todo with
  | nil => exact h
  | cons op todo =>
    rw [htodo] at hold
    have hrest : ∀ op ∈ todo, op.ordinary = true := fun o ho => hold o (List.mem_cons_of_mem _ ho)
    have hgoing : s.ended = true → ∀ {P : Prop}, P := by
      intro he
      rw [h.ended he] at htodo
      contradiction
    cases op with
    | setLines filePath lines => exact hkeeps ⟨h.listening, h.entered⟩ hd hrest fun he => hgoing he
    | leaveStepping t => exact hkeeps ⟨h.listening, h.entered⟩ hd hrest fun he => hgoing he
    | setStepping t mode => exact hkeeps ⟨h.listening, h.entered⟩ hd hrest fun he => hgoing he
    | measure t mode =>
      refine hkeeps ⟨h.listening, h.entered⟩ hd ?_ fun he => hgoing he
      intro op hop
      rcases List.mem_cons.mp hop with rfl | hop
      · rfl
      · exact hrest op hop
    | resume t command =>
      have hwork := sameWork_resume (s := { s with todo := todo }) t command
      refine hkeeps ((⟨h.listening, h.entered⟩ : Linked { s with todo := todo }).resume t command)
        (hwork.disconnecting.trans hd) ?_ fun he => hgoing (hwork.ended.symm.trans he)
      rw [hwork.todo]
      exact hrest
    | respond =>
      cases written with
      | ok _ => exact hkeeps ⟨h.listening, h.entered⟩ hd hrest fun he => hgoing he
      | error _ => exact hkeeps ⟨h.listening, h.entered⟩ hd (fun _ h => absurd h List.not_mem_nil) fun _ => rfl
    | collect _ | resumeCollected | clearAnnounced | leave =>
      have := hold _ List.mem_cons_self
      contradiction

/-- A step of `handle_disconnect` keeps the session in order when it reads no shard with a thread on its way to pause. -/
theorem Orderly.disconnectOp (h : Orderly sharding s) (hd : s.disconnecting = true) (written : Except String Unit)
    (hlet : s.letsGo sharding (.serve written) = true) : Orderly sharding (s.serve sharding written) := by
  have hshape := h.shape hd
  have hleaving := h.leaving hd
  have hway := h.onTheWay hd
  have hleft := h.left hd
  unfold Session.serve
  cases htodo : s.todo with
  | nil => exact h
  | cons op todo =>
    have hgoing : s.ended = true → ∀ {P : Prop}, P := by
      intro he
      rw [h.ended he] at htodo
      contradiction
    have hcalm : s.disconnecting = false → ∀ {P : Prop}, P := by
      intro hd'
      rw [hd] at hd'
      contradiction
    rw [htodo] at hshape hleaving hway hleft
    have hsuffix : todo <:+ disconnectOps sharding := (List.suffix_cons op todo).trans hshape
    cases op with
    | collect shard =>
      have hpasses : ∀ v ∈ s.calls, sharding.shardOf v.threadId = shard → v.pausing = false := by
        intro v hv hshard
        simp only [Session.letsGo, htodo, List.all_eq_true] at hlet
        simpa [hshard] using hlet v hv
      exact {
        toLinked := ⟨h.listening, h.entered⟩
        ordinary := fun hd' => hcalm hd'
        shape := fun _ => hsuffix
        leaving := fun _ => by simpa using hleaving
        ended := fun he => hgoing he
        onTheWay := by
          intro _ v hv hp
          rcases List.mem_cons.mp (hway v hv hp) with heq | hmem
          · rw [hpasses v hv (by simpa using heq)] at hp
            contradiction
          · exact hmem
        left := by
          intro _ t ht
          rcases hleft t ht with hmem | ⟨hmem, hresume⟩
          · rcases List.mem_cons.mp hmem with heq | hmem
            · have hshard : sharding.shardOf t = shard := by simpa using heq
              exact .inr ⟨by simpa [hshard] using .inr (AList.mem_keys.mp ht), resumeCollected_mem hshape⟩
            · exact .inl hmem
          · exact .inr ⟨List.mem_append_left _ hmem, by simpa using hresume⟩ }
    | resumeCollected =>
      dsimp only
      cases hids : s.threadIds with
      | nil =>
        exact {
          toLinked := ⟨h.listening, h.entered⟩
          ordinary := fun hd' => hcalm hd'
          shape := fun _ => hsuffix
          leaving := fun _ => by simpa using hleaving
          ended := fun he => hgoing he
          onTheWay := fun _ v hv hp => by simpa using hway v hv hp
          left := by
            intro _ t ht
            rcases hleft t ht with hmem | ⟨hmem, -⟩
            · exact .inl (by simpa using hmem)
            · rw [hids] at hmem
              contradiction }
      | cons t rest =>
        have hwork := sameWork_resume (s := { s with todo := .resumeCollected :: todo, threadIds := rest }) t .continue
        have htodo' := hwork.todo
        dsimp only
        exact {
          toLinked := (⟨h.listening, h.entered⟩ : Linked { s with todo := .resumeCollected :: todo, threadIds := rest }).resume t .continue
          ordinary := fun hd' => hcalm (hwork.disconnecting.symm.trans hd')
          shape := fun _ => htodo' ▸ hshape
          leaving := fun _ => by
            rw [htodo', hwork.ended]
            exact hleaving
          ended := fun he => hgoing (hwork.ended.symm.trans he)
          onTheWay := by
            intro _ v hv hp
            obtain ⟨v₀, hv₀, hthread, hpausing⟩ := calls_resume hv
            rw [htodo', hthread]
            exact hway v₀ hv₀ (hpausing ▸ hp)
          left := by
            intro _ t' ht'
            rw [htodo', hwork.threadIds]
            obtain ⟨hne, hmem⟩ := mem_resume.mp ht'
            rcases hleft t' hmem with hmem | ⟨hmem, hresume⟩
            · exact .inl hmem
            · rw [hids] at hmem
              exact .inr ⟨(List.mem_cons.mp hmem).resolve_left hne, hresume⟩ }
    | clearAnnounced =>
      exact {
        toLinked := ⟨h.listening, h.entered⟩
        ordinary := fun hd' => hcalm hd'
        shape := fun _ => hsuffix
        leaving := fun _ => by simpa using hleaving
        ended := fun he => hgoing he
        onTheWay := fun _ v hv hp => by simpa using hway v hv hp
        left := fun _ t ht => by simpa using hleft t ht }
    | leave =>
      exact {
        toLinked := ⟨h.listening, h.entered⟩
        ordinary := fun hd' => hcalm hd'
        shape := fun _ => hsuffix
        leaving := fun _ => .inl rfl
        ended := fun _ => leave_last hshape
        onTheWay := fun _ v hv hp => by simpa using hway v hv hp
        left := fun _ t ht => by simpa using hleft t ht }
    | setLines _ _ | leaveStepping _ | setStepping _ _ | measure _ _ | resume _ _ | respond =>
      have := not_ordinary_of_mem (hshape.subset List.mem_cons_self)
      contradiction

/-- The handler of a message other than `disconnect` is ordinary. -/
theorem ordinary_ops {message : Message} (hne : message ≠ .disconnect) (server : DapServer) :
    ∀ op ∈ message.ops sharding server, op.ordinary = true := by
  cases message <;> simp_all [Message.ops, ServerOp.ordinary]

/-- A message that arrives keeps the session orderly. -/
theorem Orderly.receive (h : Orderly sharding s) (message : Message) : Orderly sharding (s.receive sharding message) := by
  unfold Session.receive
  split_ifs with hidle
  · obtain ⟨hended, htodo⟩ := hidle
    -- a server that is disconnecting has something left to do until the loop has ended
    have hd : s.disconnecting = false := by
      by_contra hd
      rcases h.leaving (by simpa using hd) with he | hmem
      · rw [hended] at he
        contradiction
      · rw [List.isEmpty_iff.mp htodo] at hmem
        contradiction
    have hnot : s.ended = true → ∀ {P : Prop}, P := by
      intro he
      rw [hended] at he
      contradiction
    by_cases hm : message = .disconnect
    · subst hm
      have hshard : ∀ t, ServerOp.collect (sharding.shardOf t) ∈ Message.disconnect.ops sharding s.server := by
        intro t
        simp [Message.ops, sharding.shardOf_lt t]
      exact {
        toLinked := ⟨h.listening, h.entered⟩
        ordinary := fun hd' => by simp at hd'
        shape := fun _ => List.suffix_refl _
        leaving := fun _ => .inr (by simp [Message.ops])
        ended := fun he => hnot he
        onTheWay := fun _ v _ _ => hshard v.threadId
        left := fun _ t _ => .inl (hshard t) }
    · have hd' : (s.disconnecting || decide (message = .disconnect)) = false := by simp [hd, hm]
      have hcalm : (s.disconnecting || decide (message = .disconnect)) = true → ∀ {P : Prop}, P := by
        intro htrue
        rw [hd'] at htrue
        contradiction
      exact {
        toLinked := ⟨h.listening, h.entered⟩
        ordinary := fun _ => ordinary_ops hm s.server
        shape := fun htrue => hcalm htrue
        leaving := fun htrue => hcalm htrue
        ended := fun he => hnot he
        onTheWay := fun htrue => hcalm htrue
        left := fun htrue => hcalm htrue }
  · exact h

/-! ## Runs -/

/-- A thread that comes to a step keeps the session orderly. -/
theorem Orderly.enter (h : Orderly sharding s) (threadId : Nat) (location : SourceLocation) (state : Value) (stack : List String) :
    Orderly sharding (s.step sharding (.enter threadId location state stack)) := by
  have hnew : ∀ {j : Nat} {w : HookCall}, (s.step sharding (.enter threadId location state stack)).calls[j]? = some w →
      s.calls[j]? = some w ∨ w.phase = .entered := by
    intro j w hw
    simp only [Session.step, List.getElem?_append] at hw
    split_ifs at hw
    · exact .inl hw
    · right
      obtain rfl : w = { threadId := threadId, location := location, state := state, stack := stack } := by
        simpa using List.mem_of_getElem? hw
      rfl
  refine h.thread ⟨fun j w hw hl => ?_, fun t paused hp => ?_⟩ ⟨rfl, rfl, rfl, rfl⟩ (fun w hw hp => ?_) fun t ht => .inl ht
  · rcases hnew hw with hold | hphase
    · exact h.listening j w hold hl
    · simp [HookCall.listens, hphase] at hl
  · obtain ⟨w, hw, hparked⟩ := h.entered t paused hp
    exact ⟨w, by simp [Session.step, List.getElem?_append_left (List.getElem?_eq_some_iff.mp hw).1, hw], hparked⟩
  · obtain ⟨j, hj⟩ := List.mem_iff_getElem?.mp hw
    rcases hnew hj with hold | hphase
    · exact .inl ⟨w, List.mem_of_getElem? hold, rfl, hp⟩
    · simp [HookCall.pausing, hphase] at hp

/-- Every step that lets threads go keeps the session in order. -/
theorem Orderly.step (h : Orderly sharding s) (a : Move) (hlet : s.letsGo sharding a = true) : Orderly sharding (s.step sharding a) := by
  cases a with
  | enter threadId location state stack => exact h.enter threadId location state stack
  | advance i written => exact h.advance written hlet
  | receive message => exact h.receive message
  | serve written =>
    cases hd : s.disconnecting with
    | false => exact h.ordinaryOp hd written
    | true => exact h.disconnectOp hd written hlet

/-- Once `disconnect` has been processed no thread waits. -/
theorem Orderly.not_waits (h : Orderly sharding s) (hdone : s.disconnected = true) : ∀ v ∈ s.calls, v.waits = false := by
  intro v hv
  obtain ⟨hd, he⟩ := Bool.and_eq_true_iff.mp hdone
  by_contra hwaits
  obtain ⟨i, hi⟩ := List.mem_iff_getElem?.mp hv
  obtain ⟨paused, hpaused, -⟩ := h.listening i v hi (HookCall.listens_of_waits (by simpa using hwaits))
  have hmem : v.threadId ∈ s.server.pausedThreads := AList.lookup_isSome.mp (by simp [hpaused])
  have := h.left hd v.threadId hmem
  simp [h.ended he] at this

/-- A session before any message and any thread. -/
def Session.start (filePath : String) : Session := { server := { filePath := filePath } }

/-- A session starts orderly. -/
theorem orderly_start (sharding : Sharding) (filePath : String) : Orderly sharding (.start filePath) where
  listening i v hv := by simp [Session.start] at hv
  entered t paused hp := by simp [Session.start] at hp
  ordinary _ op hop := by simp [Session.start] at hop
  shape hd := by simp [Session.start] at hd
  leaving hd := by simp [Session.start] at hd
  ended _ := rfl
  onTheWay hd := by simp [Session.start] at hd
  left hd := by simp [Session.start] at hd

/-- No thread waits after `disconnect`, in any run in which `handle_disconnect` passes by no thread on its way to pause, and no thread
comes to a breakpoint or to a step it was to pause at afterwards. -/
theorem no_thread_waits (sharding : Sharding) (filePath : String) (moves : List Move)
    (hlet : Runs.EveryStep (Session.step sharding) (fun s a => s.letsGo sharding a = true) (.start filePath) moves) :
    Runs.Always (Session.step sharding) (fun s => s.disconnected = true → ∀ v ∈ s.calls, v.waits = false) (.start filePath) moves := by
  have horderly : Runs.Always (Session.step sharding) (Orderly sharding) (.start filePath) moves :=
    Runs.always_of_everyStep (fun s a h hc => h.step a hc) (orderly_start sharding filePath) moves hlet
  intro pre post hsplit hdone
  exact (horderly pre post hsplit).not_waits hdone

/-! ## Two sessions -/

/-- One shard for all threads. -/
def oneShard : Sharding := ⟨1, fun _ => 0, fun _ => Nat.one_pos⟩

/-- A line of the program. -/
def atLine (line : Nat) : SourceLocation := { line := line }

/-- The client sets a breakpoint on line 3. -/
def breakAtThree : List Move := [.receive (.setBreakpoints none [3]), .serve (.ok ()), .serve (.ok ())]

/-- The client disconnects. -/
def clientLeaves : List Move := .receive .disconnect :: List.replicate 5 (.serve (.ok ()))

/-- The thread of call `i` goes on for a number of steps. -/
def goesOn (i steps : Nat) : List Move := List.replicate steps (.advance i (.ok ()))

/-- A thread that waits at the breakpoint is resumed by `disconnect`, and goes on to a line without one. -/
def resumedRun : List Move :=
  breakAtThree ++ [.enter 1 (atLine 3) .null []] ++ goesOn 0 8 ++ clientLeaves ++ goesOn 0 1 ++ [.enter 1 (atLine 4) .null []] ++
    goesOn 1 2

/-- A thread that comes to the breakpoint after `disconnect`. -/
def lateRun : List Move := breakAtThree ++ clientLeaves ++ [.enter 1 (atLine 3) .null []] ++ goesOn 0 8

/-- So the thread waits no more. -/
theorem no_thread_waits_resumed :
    Runs.Always (Session.step oneShard) (fun s => s.disconnected = true → ∀ v ∈ s.calls, v.waits = false) (.start "main.wp") resumedRun :=
  no_thread_waits oneShard "main.wp" resumedRun (Runs.everyStep_of_check (by decide +kernel))

/-- After `disconnect` was processed, the thread waits. -/
theorem late_thread_waits :
    ¬ Runs.Always (Session.step oneShard) (fun s => s.disconnected = true → ∀ v ∈ s.calls, v.waits = false) (.start "main.wp") lateRun := by
  intro h
  have hlast := h lateRun [] (by simp)
  have hwaits : (Runs.after (Session.step oneShard) (.start "main.wp") lateRun).disconnected = true ∧
      (Runs.after (Session.step oneShard) (.start "main.wp") lateRun).calls.any HookCall.waits = true := by
    decide +kernel
  obtain ⟨v, hv, hvw⟩ := List.any_eq_true.mp hwaits.2
  rw [hlast hwaits.1 v hv] at hvw
  contradiction

end WebPipe
