import WebPipe.Executor.Run
import WebPipe.Lemmas.LoadGroups

/-!
# Loads of one window

A loader runs the pipeline of a name once for all loads of a window that have the name, with the module, the arguments and the context of
one of them. `loads_transparent_iff` says for which windows every load receives what it would have received alone.
-/

namespace WebPipe

/-! ## What a pipeline answers -/

/-- What the pipelines of loaders answer, by module, name, arguments and context: an error, or a value for every key. -/
abbrev LoaderAnswers := Option ModuleId → String → Value → Value → Except WebPipeError (Value → Value)

/-- What the pipeline of a load answers with the module, the arguments and the context of the load. -/
def LoaderKey.answer (answers : LoaderAnswers) (k : LoaderKey) : Except WebPipeError (Value → Value) :=
  answers k.moduleId k.pipelineName k.args k.outer

/-- What a load asks for, with a module, arguments and a context of its own. -/
def LoaderKey.own (answers : LoaderAnswers) (k : LoaderKey) : Except WebPipeError Value := (k.answer answers).map (· k.key)

/-- The result of a run on the keys of a group is what is answered: the error, or an object with the value of each key. -/
def Answered (answer : Except WebPipeError (Value → Value)) (g : LoadGroup) (result : Except WebPipeError Object) : Prop :=
  match answer with
  | .error e => result = .error e
  | .ok f => ∃ members, result = .ok members ∧ ∀ k ∈ g.entries, (IndexMap.get members (keyStr k.key)).getD .null = f k.key

section Loads

variable {σ : Type} {env : ExecutionEnv σ} {debugText : Value → String} {run : RunFn σ} {inv : World σ → Prop} {answers : LoaderAnswers}

/-- The pipelines of the loads of a window are pointwise in their keys: a run gives a key the value that it gives it among any other keys,
with the module, the arguments and the context that it is called with, wherever the world is as such runs leave it. -/
def Pointwise (env : ExecutionEnv σ) (debugText : Value → String) (run : RunFn σ) (inv : World σ → Prop) (answers : LoaderAnswers)
    (loads : List LoaderKey) : Prop :=
  ∀ name g w, (∀ k ∈ g.entries, k ∈ loads ∧ k.pipelineName = name) → inv w → ∃ result w',
    Prog.Ends (runGroup env debugText run name g) w (.ok result) w' ∧ inv w' ∧ Answered (g.first.answer answers) g result

/-- What a load receives of its batch. -/
def Receives (env : ExecutionEnv σ) (debugText : Value → String) (run : RunFn σ) (groups : List (String × LoadGroup)) (w : World σ)
    (k : LoaderKey) (received : Except WebPipeError Value) : Prop :=
  ∃ result w', Prog.Ends (load env debugText run groups .empty) w (.ok result) w' ∧ receivedOf result k = received

/-- A load receives one thing. -/
theorem Receives.unique {groups : List (String × LoadGroup)} {w : World σ} {k : LoaderKey} {r r' : Except WebPipeError Value}
    (h : Receives env debugText run groups w k r) (h' : Receives env debugText run groups w k r') : r = r' := by
  obtain ⟨result, w₁, hends, rfl⟩ := h
  obtain ⟨result', w₂, hends', rfl⟩ := h'
  rw [Except.ok.inj (hends.unique hends').1]

/-- Batching is transparent for the loads of a window: whatever the order in which they come, in which the set yields their keys and in
which the map yields the groups, each of them receives what it receives when it is alone. -/
def Transparent (env : ExecutionEnv σ) (debugText : Value → String) (run : RunFn σ) (loads : List LoaderKey) (w : World σ) : Prop :=
  ∀ keys groups, Batch loads keys → groups.Perm (groupKeys keys) → ∀ k ∈ loads, ∃ received,
    Receives env debugText run groups w k received ∧ Receives env debugText run (groupKeys [k]) w k received

/-! ## What a batch yields -/

/-- A result of one name leaves those of other names. -/
theorem LoadedValues.insertAll_of_ne (loaded : LoadedValues) (members : Object) {keys : List LoaderKey} {k : LoaderKey}
    (h : ∀ k' ∈ keys, ¬ k'.same k = true) : loaded.insertAll members keys k = loaded k := by
  induction keys generalizing loaded with
  | nil => rfl
  | cons k' keys ih =>
    obtain ⟨hk', hkeys⟩ := List.forall_mem_cons.mp h
    refine (ih _ hkeys).trans ?_
    exact if_neg hk'

/-- The value of a key is that of its member. -/
theorem LoadedValues.insertAll_of_mem (loaded : LoadedValues) (members : Object) {keys : List LoaderKey} {k : LoaderKey}
    (hk : k.key.Keyed) (h : ∃ k' ∈ keys, k'.pipelineName = k.pipelineName ∧ k'.key = k.key) :
    loaded.insertAll members keys k = some ((IndexMap.get members (keyStr k.key)).getD .null) := by
  induction keys generalizing loaded with
  | nil =>
    obtain ⟨_, hmem, -⟩ := h
    cases hmem
  | cons k' keys ih =>
    by_cases hrest : ∃ k'' ∈ keys, k''.pipelineName = k.pipelineName ∧ k''.key = k.key
    · exact ih _ hrest
    · obtain ⟨k'', hmem, heq⟩ := h
      obtain rfl := (List.mem_cons.mp hmem).resolve_right fun hin => hrest ⟨k'', hin, heq⟩
      have hnot : ∀ k₁ ∈ keys, ¬ k₁.same k = true := fun k₁ hk₁ hsame => hrest ⟨k₁, hk₁, (LoaderKey.same_iff hk).mp hsame⟩
      refine (insertAll_of_ne _ members hnot).trans ?_
      rw [← heq.2]
      exact if_pos ((LoaderKey.same_iff hk).mpr heq)

/-- What a batch can come to: the error of one of its groups, or for each group the values of its keys. -/
def Yielded (answers : LoaderAnswers) (groups : List (String × LoadGroup)) (before : LoadedValues)
    (result : Except WebPipeError LoadedValues) : Prop :=
  match result with
  | .error e => ∃ p ∈ groups, p.2.first.answer answers = .error e
  | .ok values =>
    (∀ k : LoaderKey, k.key.Keyed → (∀ p ∈ groups, p.1 ≠ k.pipelineName) → values k = before k) ∧
    ∀ p ∈ groups, ∃ f, p.2.first.answer answers = .ok f ∧ ∀ k : LoaderKey, k.key.Keyed → k.pipelineName = p.1 →
      (∃ k' ∈ p.2.entries, k'.key = k.key) → values k = some (f k.key)

/-- A batch comes to what the pipelines of its groups answer; an error of the first group is its error. -/
theorem load_yields {loads : List LoaderKey} (hpointwise : Pointwise env debugText run inv answers loads)
    (groups : List (String × LoadGroup)) (before : LoadedValues)
    (hnamed : ∀ p ∈ groups, ∀ k ∈ p.2.entries, k ∈ loads ∧ k.pipelineName = p.1) (hdistinct : IndexMap.Distinct groups)
    {w : World σ} (hw : inv w) : ∃ result w', Prog.Ends (load env debugText run groups before) w (.ok result) w' ∧
      Yielded answers groups before result ∧
      ∀ p rest e, groups = p :: rest → p.2.first.answer answers = .error e → result = .error e := by
  induction groups generalizing before w with
  | nil =>
    refine ⟨.ok before, w, Prog.ends_pure _ w, ⟨fun _ _ _ => rfl, by simp⟩, ?_⟩
    intro p rest e h
    cases h
  | cons p groups ih =>
    obtain ⟨name, g⟩ := p
    obtain ⟨hp, hnamed⟩ := List.forall_mem_cons.mp hnamed
    obtain ⟨hnew, hdistinct⟩ := IndexMap.distinct_cons.mp hdistinct
    obtain ⟨result, w₁, hgroup, hw₁, hanswered⟩ := hpointwise name g w hp hw
    cases hanswer : g.first.answer answers with
    | error e =>
      rw [hanswer] at hanswered
      obtain rfl : result = .error e := hanswered
      refine ⟨.error e, w₁, hgroup.bind (Prog.ends_pure _ w₁), ⟨(name, g), List.mem_cons_self, hanswer⟩, ?_⟩
      intro p rest e' h he'
      cases h
      rw [hanswer] at he'
      rw [Except.error.inj he']
    | ok f =>
      rw [hanswer] at hanswered
      obtain ⟨members, rfl, hvalues⟩ := hanswered
      obtain ⟨result, w', hrest, hyielded, -⟩ := ih (before.insertAll members g.entries) hnamed hdistinct hw₁
      refine ⟨result, w', hgroup.bind hrest, ?_, ?_⟩
      · cases result with
        | error e =>
          obtain ⟨p, hp, he⟩ := hyielded
          exact ⟨p, List.mem_cons_of_mem _ hp, he⟩
        | ok values =>
          obtain ⟨hothers, hgroups⟩ := hyielded
          refine ⟨fun k hk hne => ?_, List.forall_mem_cons.mpr ⟨⟨f, hanswer, fun k hk hname hin => ?_⟩, hgroups⟩⟩
          · obtain ⟨hne, hne'⟩ := List.forall_mem_cons.mp hne
            rw [hothers k hk hne']
            refine LoadedValues.insertAll_of_ne _ _ fun k' hk' hsame => hne ?_
            rw [← (hp k' hk').2]
            exact ((LoaderKey.same_iff hk).mp hsame).1
          · obtain ⟨k', hk', hkey⟩ := hin
            have hother : ∀ p ∈ groups, p.1 ≠ k.pipelineName := by
              intro p hp heq
              exact hnew (List.mem_map.mpr ⟨p, hp, heq.trans hname⟩)
            rw [hothers k hk hother, LoadedValues.insertAll_of_mem _ _ hk ⟨k', hk', (hp k' hk').2.trans hname.symm, hkey⟩, ← hkey,
              hvalues k' hk']
      · intro p rest e h he
        cases h
        rw [hanswer] at he
        cases he

/-- A load that is alone receives what it asks for. -/
theorem receives_alone {loads : List LoaderKey} (hpointwise : Pointwise env debugText run inv answers loads) {k : LoaderKey}
    (hin : k ∈ loads) (hk : k.key.Keyed) {w : World σ} (hw : inv w) : Receives env debugText run (groupKeys [k]) w k (k.own answers) := by
  have hgrouped := grouped_groupKeys [k]
  have hone : ∀ k' ∈ [k], k' ∈ loads := List.forall_mem_singleton.mpr hin
  obtain ⟨result, w', hends, hyielded, -⟩ := load_yields hpointwise (groupKeys [k]) .empty (hgrouped.named_loads hone)
    hgrouped.distinct hw
  refine ⟨result, w', hends, ?_⟩
  have hgroups : groupKeys [k] = [(k.pipelineName, { first := k, rest := [] })] := rfl
  rw [hgroups] at hyielded
  cases result with
  | error e =>
    obtain ⟨p, hp, he⟩ := hyielded
    obtain rfl := List.mem_singleton.mp hp
    unfold LoaderKey.own
    rw [he]
    rfl
  | ok values =>
    obtain ⟨f, hf, hvalues⟩ := hyielded.2 _ List.mem_cons_self
    unfold LoaderKey.own receivedOf
    rw [hf, Except.map, Except.map, hvalues k hk rfl ⟨k, List.mem_cons_self, rfl⟩]
    rfl

/-! ## Transparency -/

/-- The loads of a window agree: those of one name get the same for each of their keys, whichever of them is asked, and the error of one
is the error of all. -/
structure LoadsAgree (answers : LoaderAnswers) (loads : List LoaderKey) : Prop where
  named : ∀ r ∈ loads, ∀ k ∈ loads, r.pipelineName = k.pipelineName → (r.answer answers).map (· k.key) = k.own answers
  failed : ∀ r ∈ loads, ∀ e, r.answer answers = .error e → ∀ k ∈ loads, k.answer answers = .error e

/-- The batch of a window in which a load comes first: every load receives what it asks for, and the first load is the one that is asked
for its name. -/
theorem Transparent.first {loads : List LoaderKey} (hpointwise : Pointwise env debugText run inv answers loads)
    (hkeyed : KeyedLoads loads) {w : World σ} (hw : inv w) (htransparent : Transparent env debugText run loads w) {r : LoaderKey}
    (hr : r ∈ loads) :
    ∃ result, (∀ k ∈ loads, receivedOf result k = k.own answers) ∧ (∀ e, r.answer answers = .error e → result = .error e) ∧
      ∀ f values, r.answer answers = .ok f → result = .ok values → ∀ k ∈ loads, r.pipelineName = k.pipelineName →
        values k = some (f k.key) := by
  obtain ⟨keys, hbatch⟩ := exists_batch_first hr
  obtain ⟨hfrom, hcovers⟩ := hbatch.holds hkeyed
  have hgrouped := grouped_groupKeys (r :: keys)
  obtain ⟨result, w', hends, hyielded, hfailed⟩ := load_yields hpointwise (groupKeys (r :: keys)) .empty
    (hgrouped.named_loads hfrom) hgrouped.distinct hw
  obtain ⟨g, rest, hgroups, rfl⟩ := groupKeys_first r keys
  refine ⟨result, fun k hk => ?_, fun e he => hfailed _ rest e hgroups he, ?_⟩
  · obtain ⟨received, hreceived, halone⟩ := htransparent _ _ hbatch (List.Perm.refl _) k hk
    rw [← halone.unique (receives_alone hpointwise hk (hkeyed k hk) hw)]
    exact Receives.unique ⟨result, w', hends, rfl⟩ hreceived
  · rintro f values hf rfl k hk hname
    have hhead : (g.first.pipelineName, g) ∈ groupKeys (g.first :: keys) := by
      rw [hgroups]
      exact List.mem_cons_self
    obtain ⟨k', hk', hname', hkey⟩ := hcovers k hk
    obtain ⟨⟨name, g'⟩, hp, heq, hin⟩ := hgrouped.covers k' hk'
    -- the group of the key is that of the first load
    have hsame : name = g.first.pipelineName := heq.trans (hname'.trans hname.symm)
    subst hsame
    have hg' := (IndexMap.get_eq_some_iff hgrouped.distinct).mpr hp
    rw [(IndexMap.get_eq_some_iff hgrouped.distinct).mpr hhead] at hg'
    cases hg'
    obtain ⟨f', hf', hvalues⟩ := hyielded.2 _ hhead
    dsimp only at hf'
    rw [hf] at hf'
    rw [hvalues k (hkeyed k hk) hname.symm ⟨k', hin, hkey⟩, Except.ok.inj hf']

/-- Where the pipelines of loaders are pointwise in their keys, batching is transparent for the loads of a window exactly when they
agree. -/
theorem loads_transparent_iff {loads : List LoaderKey} (hpointwise : Pointwise env debugText run inv answers loads)
    (hkeyed : KeyedLoads loads) {w : World σ} (hw : inv w) :
    Transparent env debugText run loads w ↔ LoadsAgree answers loads := by
  constructor
  · intro htransparent
    have hfailed : ∀ r ∈ loads, ∀ e, r.answer answers = .error e → ∀ k ∈ loads, k.answer answers = .error e := by
      intro r hr e he k hk
      obtain ⟨result, hreceived, herror, -⟩ := htransparent.first hpointwise hkeyed hw hr
      have hown := hreceived k hk
      rw [herror e he] at hown
      unfold LoaderKey.own at hown
      cases hanswer : k.answer answers with
      | error e' =>
        rw [hanswer] at hown
        cases hown
        rfl
      | ok f =>
        rw [hanswer] at hown
        cases hown
    refine ⟨fun r hr k hk hname => ?_, hfailed⟩
    unfold LoaderKey.own
    cases hanswer : r.answer answers with
    | error e => rw [hfailed r hr e hanswer k hk]
    | ok f =>
      obtain ⟨result, hreceived, -, hvalues⟩ := htransparent.first hpointwise hkeyed hw hr
      have hr' := hreceived r hr
      unfold LoaderKey.own at hr'
      rw [hanswer] at hr'
      cases result with
      | error e => cases hr'
      | ok values =>
        have hown := hreceived k hk
        unfold receivedOf LoaderKey.own at hown
        rw [Except.map, hvalues f values hanswer rfl k hk hname] at hown
        exact hown
  · intro hagree keys groups hbatch hperm k hk
    refine ⟨k.own answers, ?_, receives_alone hpointwise hk (hkeyed k hk) hw⟩
    obtain ⟨hfrom, hcovers⟩ := hbatch.holds hkeyed
    have hgrouped := (grouped_groupKeys keys).perm hperm
    obtain ⟨result, w', hends, hyielded, -⟩ := load_yields hpointwise groups .empty (hgrouped.named_loads hfrom)
      hgrouped.distinct hw
    have hasked : ∀ p ∈ groups, p.2.first ∈ loads ∧ p.2.first.pipelineName = p.1 := fun p hp =>
      hgrouped.named_loads hfrom p hp _ List.mem_cons_self
    refine ⟨result, w', hends, ?_⟩
    cases result with
    | error e =>
      obtain ⟨p, hp, he⟩ := hyielded
      unfold LoaderKey.own
      rw [hagree.failed _ (hasked p hp).1 e he k hk]
      rfl
    | ok values =>
      obtain ⟨k', hk', hname, hkey⟩ := hcovers k hk
      obtain ⟨p, hp, hp', hin⟩ := hgrouped.covers k' hk'
      obtain ⟨f, hf, hvalues⟩ := hyielded.2 p hp
      have hown := hagree.named _ (hasked p hp).1 k hk ((hasked p hp).2.trans (hp'.trans hname))
      rw [hf] at hown
      rw [← hown]
      unfold receivedOf
      rw [Except.map, hvalues k (hkeyed k hk) (hname.symm.trans hp'.symm) ⟨k', hin, hkey⟩]
      rfl

end Loads

/-! ## Two windows -/

/-- A pipeline that answers the posts of user 1 with the arguments that it was called with. -/
def postsByUser : Pipeline := { steps := [.regular { name := "posts", config := "" }] }

/-- The pipeline `postsByUser` is there, and no other; a jq expression reads the id of the parent. -/
def postsEnv : ExecutionEnv Unit where
  registry name :=
    if name = "posts" then some (.stateless .transform fun call => .ok ({}, .object [("1", (call.state.get "args").getD .null)]))
    else none
  namedPipelines moduleId name := if moduleId = none ∧ name = "postsByUser" then some postsByUser else none
  jq _ input := .ok (((input.get "parent").bind (·.get "id")).getD .null)

/-- A load for a user by a field with a limit. -/
def userLoad (pipelineName : String) (user limit : Int) : LoaderKey where
  pipelineName := pipelineName
  key := .number (.int user)
  context := resolverInput (.object [("id", .number (.int user))]) (.object [("limit", .number (.int limit))]) (.object [])
  moduleId := none

/-- What the pipelines of `postsEnv` answer. -/
def postsAnswers : LoaderAnswers := fun moduleId name args _ =>
  match loaderPipeline postsEnv moduleId name with
  | none => .error (.plain .pipelineNotFound name)
  | some _ => .ok fun key => (IndexMap.get [("1", args)] (keyStr key)).getD .null

/-- The runs of the executor. -/
def postsRun : RunFn Unit := executeWithErrorShortCircuit postsEnv 2

/-- The request of a query. -/
def queryWorld : World Unit := World.start (.ofSettings (.ofNew 16 60 (fromSecs 100000))) ()

theorem loaderPipeline_postsEnv {moduleId : Option ModuleId} {name : String} {pipeline : Pipeline}
    (h : loaderPipeline postsEnv moduleId name = some pipeline) : pipeline = postsByUser := by
  refine List.mem_singleton.mp (mem_of_loaderPipeline postsEnv (fun moduleId name pipeline h => ?_) h)
  unfold postsEnv at h
  dsimp only at h
  split_ifs at h
  exact List.mem_singleton.mpr (Option.some.inj h).symm

/-- Its pipeline answers each key alone. -/
theorem pointwise_postsEnv (loads : List LoaderKey) :
    Pointwise postsEnv (fun _ => "") postsRun (fun _ => True) postsAnswers loads := by
  intro name g w hnamed _
  have hname : g.first.pipelineName = name := (hnamed g.first List.mem_cons_self).2
  unfold LoaderKey.answer postsAnswers runGroup
  rw [hname]
  cases hpipeline : loaderPipeline postsEnv g.first.moduleId name with
  | none => exact ⟨_, w, Prog.ends_pure _ w, trivial, rfl⟩
  | some pipeline =>
    obtain rfl := loaderPipeline_postsEnv hpipeline
    have hrun : ∀ args context, ∃ w', Prog.Ends (runResolver postsRun (.loader name) postsByUser
        (.object [("keys", .array (g.entries.map LoaderKey.key)), ("args", args), ("context", context)])) w
          (.ok (.ok (.object [("1", args)]))) w' := fun _ _ => ⟨_, _, rfl⟩
    obtain ⟨w', hw'⟩ := hrun g.first.args g.first.outer
    exact ⟨_, w', hw'.bind (Prog.ends_pure _ w'), trivial, _, rfl, fun _ _ => rfl⟩

/-- The loads of two users with one limit. -/
theorem loads_transparent_iff_posts :
    Transparent postsEnv (fun _ => "") postsRun [userLoad "postsByUser" 1 3, userLoad "postsByUser" 2 3] queryWorld ∧
      LoadsAgree postsAnswers [userLoad "postsByUser" 1 3, userLoad "postsByUser" 2 3] := by
  have hkeyed : KeyedLoads [userLoad "postsByUser" 1 3, userLoad "postsByUser" 2 3] := by
    simp only [KeyedLoads, List.forall_mem_cons, List.not_mem_nil, false_implies, implies_true, and_true]
    exact ⟨.number _, .number _⟩
  have hagree : LoadsAgree postsAnswers [userLoad "postsByUser" 1 3, userLoad "postsByUser" 2 3] := by
    refine ⟨?_, ?_⟩
    · simp only [List.forall_mem_cons, List.not_mem_nil, false_implies, implies_true, and_true]
      exact ⟨⟨fun _ => rfl, fun _ => rfl⟩, fun _ => rfl, fun _ => rfl⟩
    · intro r hr e he
      rw [List.mem_cons, List.mem_singleton] at hr
      rcases hr with rfl | rfl
      · cases he
      · cases he
  exact ⟨(loads_transparent_iff (pointwise_postsEnv _) hkeyed trivial).mpr hagree, hagree⟩

/-- Of two fields of one user the second receives what the first has asked for; and a field whose pipeline is missing takes the others of
its window with it. -/
theorem loads_mix :
    (∀ name user limit, loaderKeyOf postsEnv { name := "loader", args := [".parent.id"], config := name } (resolverInput
      (.object [("id", .number (.int user))]) (.object [("limit", .number (.int limit))]) (.object [])) =
        .ok (userLoad name user limit)) ∧
    (∀ loads, Pointwise postsEnv (fun _ => "") postsRun (fun _ => True) postsAnswers loads) ∧
    ¬ Transparent postsEnv (fun _ => "") postsRun [userLoad "postsByUser" 1 3, userLoad "postsByUser" 1 5] queryWorld ∧
    ¬ Transparent postsEnv (fun _ => "") postsRun [userLoad "postsByUser" 1 3, userLoad "friendsByUser" 1 3] queryWorld := by
  refine ⟨fun _ _ _ => rfl, pointwise_postsEnv, fun h => ?_, fun h => ?_⟩
  · obtain ⟨received, hbatch, halone⟩ := h [userLoad "postsByUser" 1 3] _ ⟨_, .refl _, .refl _⟩ (.refl _) (userLoad "postsByUser" 1 5)
      (List.mem_cons_of_mem _ List.mem_cons_self)
    have hfirst : Receives postsEnv (fun _ => "") postsRun (groupKeys [userLoad "postsByUser" 1 3]) queryWorld
      (userLoad "postsByUser" 1 5) (.ok (.object [("limit", .number (.int 3))])) := ⟨_, _, ⟨_, rfl⟩, rfl⟩
    have hown : Receives postsEnv (fun _ => "") postsRun (groupKeys [userLoad "postsByUser" 1 5]) queryWorld
      (userLoad "postsByUser" 1 5) (.ok (.object [("limit", .number (.int 5))])) := ⟨_, _, ⟨_, rfl⟩, rfl⟩
    rw [hbatch.unique hfirst] at halone
    cases halone.unique hown
  · obtain ⟨received, hbatch, halone⟩ := h [userLoad "postsByUser" 1 3, userLoad "friendsByUser" 1 3] _ ⟨_, .refl _, .refl _⟩ (.refl _)
      (userLoad "postsByUser" 1 3) List.mem_cons_self
    have hfailed : Receives postsEnv (fun _ => "") postsRun (groupKeys [userLoad "postsByUser" 1 3, userLoad "friendsByUser" 1 3])
      queryWorld (userLoad "postsByUser" 1 3) (.error (.plain .pipelineNotFound "friendsByUser")) := ⟨_, _, ⟨_, rfl⟩, rfl⟩
    have hown : Receives postsEnv (fun _ => "") postsRun (groupKeys [userLoad "postsByUser" 1 3]) queryWorld
      (userLoad "postsByUser" 1 3) (.ok (.object [("limit", .number (.int 3))])) := ⟨_, _, ⟨_, rfl⟩, rfl⟩
    rw [hbatch.unique hfailed] at halone
    cases halone.unique hown

end WebPipe
