import MemShell.Proofs.Shell.Durability
import MemShell.Proofs.Shell.Reporting
set_option autoImplicit false

namespace MemShell
namespace Reporting
open Execute

variable {lossy loose : Prop} {s₀ s t : Shell} {c : Caller} {inner : LineRunner}

theorem ends_perform (hinner : Runs lossy inner) (action : Action) (k : Context)
    (hallow : Allows lossy s (.command action k))
    (hloose : k.caller.script = none → (lossy ∨ ∃ b, action = .builtin b ∧ b.changesTree = true) →
      loose) :
    (perform inner action k).Ends (Allows lossy) s (Goes (loose ∧ lossy) s) fun r t =>
      Goes (loose ∧ Told lossy s r t) s t ∧ (lossy → r.Speaks) := by
  cases action with
  | builtin b =>
    exact Run.ends_effect (ends_builtin hallow fun hnone h => hloose hnone (.inr ⟨b, rfl, h⟩))
  | wait n =>
    exact (ends_wait k n).mono (fun _ ht => ht.mono False.elim)
      fun _ _ h => ⟨h.1.mono False.elim, fun _ => h.2⟩
  | runScript =>
    exact (ends_runScript hinner _ _).mono (fun _ ht => ht.mono False.elim)
      fun _ _ h => ⟨h.1.mono False.elim, fun _ => h.2⟩
  | custom reply =>
    exact (ends_answer (reply k) hallow.2.1).mono (fun _ ht => ht.mono False.elim)
      fun _ _ h => ⟨h.1.mono False.elim, h.2⟩
  | fanOut =>
    by_cases hlossy : lossy
    · have hnone (h : k.caller.script = none) : loose := hloose h (.inl hlossy)
      simp only [perform, fanOut]
      split
      · exact Run.ends_pure ⟨goes_refl s, fun _ => speaks_of_success rfl⟩
      · refine (ends_runCommands hlossy hinner k _ _ _ (goes_refl s)).mono ?_ ?_
        · exact fun _ ht => ht.mono fun h => ⟨hnone h.1, h.2⟩
        · exact fun _ _ h => ⟨h.1.mono fun h => ⟨hnone h.1, h.2⟩, fun _ => h.2⟩
    · exact absurd (hallow.2.2 hlossy).2 (by simp [Note.isFanOut])

theorem told_withData {r : Result String} (h : Goes (loose ∧ Told lossy s r t) s t) :
    Goes (loose ∧ Told lossy s (withData r) t) s t := by
  unfold withData
  split <;> exact h

theorem ends_runSegment (hinner : Runs lossy inner) (seg : Segment) (input : Option String) :
    (runSegment inner seg input c).Ends (Allows lossy) s (Goes False s) fun r t =>
      Goes (Loose lossy c s.commands seg ∧ Told lossy s r t) s t ∧ (lossy → r.Speaks) := by
  refine Run.ends_get_bind ?_
  split
  · exact Run.ends_pure ⟨goes_refl s, fun _ => speaks_fail (append_ne_empty_right (by simp)) _⟩
  next command hcommand =>
  dsimp only
  split
  · refine Run.ends_pure ⟨goes_refl s, fun _ => speaks_fail ?_ _⟩
    exact append_ne_empty (append_ne_empty_right (by simp))
  split
  · exact Run.ends_pure ⟨goes_refl s, fun _ => speaks_report _ _⟩
  · next i _ =>
    refine Run.ends_note_bind fun hallow => ?_
    have hloose (hnone : c.script = none)
        (h : lossy ∨ ∃ b, command.action = .builtin b ∧ b.changesTree = true) :
        Loose lossy c s.commands seg := by
      refine ⟨hnone, fun hnot => ?_⟩
      obtain ⟨b, hb, htree⟩ := h.resolve_left hnot
      obtain ⟨contract, action⟩ := command
      obtain rfl : action = .builtin b := hb
      simp [Segment.isQuiet, hcommand, htree]
    refine (ends_perform hinner _ _ hallow hloose).outcome_bind fun r t hr => ?_
    cases r with
    | ok r => exact Run.ends_pure ⟨told_withData hr.1, fun hlossy => speaks_withData (hr.2 hlossy)⟩
    | error f =>
      refine Run.ends_pure ⟨told_of_failure ?_ hr, fun _ => speaks_report _ _⟩
      unfold report
      split <;> rfl

/-- Saving hides a change only where failures may do so, unless saves succeed. -/
theorem ends_saveOr (failure : String) (hs : Goes loose s₀ s)
    (hlost : ¬s.storage.Accepts → Goes (loose ∧ lossy) s₀ s) :
    (saveOr failure).Ends (Allows lossy) s (Goes loose s₀) fun r t =>
      (r = none → Goes False s t) ∧
        ∀ f, r = some f → Goes (loose ∧ Told lossy s₀ f t) s₀ t ∧ f.Speaks := by
  have hsave : Effect.save.Ends s (Goes loose s₀) fun saved t =>
      Goes False s t ∧ (s.storage.Accepts → saved.problem = none) := by
    have hgoes := goes_save s
    cases hrun : Effect.save.run s with
    | mk saved t =>
      rw [hrun] at hgoes
      cases saved with
      | ok saved =>
        refine Work.ends_of_run hrun ⟨hgoes, fun haccepts => ?_⟩
        have hanswer : (s.storage.save s.files).1 = .ok saved := congrArg Prod.fst hrun
        rw [haccepts.answer] at hanswer
        obtain rfl := Except.ok.inj hanswer
        rfl
      | error f => exact Work.ends_of_fault hrun (hs.trans (hgoes.mono False.elim))
  refine (Run.ends_effect hsave).bind ?_
  rintro saved t ⟨hgoes, haccepts⟩
  split
  · exact Run.ends_pure ⟨fun _ => hgoes, fun _ hf => nomatch hf⟩
  · next p hp =>
    have hrefused : ¬s.storage.Accepts := fun h => by simp [haccepts h] at hp
    refine Run.ends_pure ⟨fun hf => (nomatch hf), fun f hf => ?_⟩
    obtain rfl := Option.some.inj hf
    refine ⟨told_of_failure rfl ((hlost hrefused).trans (hgoes.mono False.elim)), speaks_fail ?_ _⟩
    exact append_ne_empty (append_ne_empty_right (by simp))

/-- What is known of the stages to come in a pipeline that began at `s₀`: where failures must not hide
changes, all but the last are quiet, and so were the ones before. -/
structure Ahead (lossy loose : Prop) (c : Caller) (s₀ s : Shell) (segments : List Segment) :
    Prop where
  loose : ∀ seg ∈ segments, Loose lossy c s₀.commands seg → loose
  quiet : ¬lossy → ∀ seg ∈ segments.dropLast, ¬Loose lossy c s₀.commands seg
  root : ¬lossy → segments ≠ [] → s.files.root = s₀.files.root

theorem Ahead.sofar {seg : Segment} {rest : List Segment} {p : Prop}
    (h : Ahead lossy loose c s₀ s (seg :: rest)) (hs : Goes (loose ∧ p) s₀ s) :
    Goes (loose ∧ lossy) s₀ s := by
  by_cases hlossy : lossy
  · exact hs.mono fun h => ⟨h.1, hlossy⟩
  · exact ⟨hs.later, .inl (h.root hlossy (List.cons_ne_nil _ _))⟩

theorem Ahead.step {seg : Segment} {rest : List Segment}
    (h : Ahead lossy loose c s₀ s (seg :: rest))
    (ht : Goes (Loose lossy c s₀.commands seg) s t) : Ahead lossy loose c s₀ t rest where
  loose seg' hseg' := h.loose seg' (List.mem_cons_of_mem _ hseg')
  quiet hlossy seg' hseg' := by
    have hrest : rest ≠ [] := by rintro rfl; cases hseg'
    refine h.quiet hlossy seg' ?_
    rw [List.dropLast_cons_of_ne_nil hrest]
    exact List.mem_cons_of_mem _ hseg'
  root hlossy hrest := by
    have hmem : seg ∈ (seg :: rest).dropLast := by
      rw [List.dropLast_cons_of_ne_nil hrest]
      exact List.mem_cons_self ..
    rw [ht.root.resolve_right (h.quiet hlossy seg hmem)]
    exact h.root hlossy (List.cons_ne_nil _ _)

theorem Ahead.kept {segments : List Segment} (h : Ahead lossy loose c s₀ s segments)
    (hroot : t.files.root = s.files.root) : Ahead lossy loose c s₀ t segments :=
  ⟨h.loose, h.quiet, fun hlossy hsegments => hroot.trans (h.root hlossy hsegments)⟩

theorem ends_runSegments (hinner : Runs lossy inner) (modified : Bool) (text : String)
    (input : Option String) (segments : List Segment)
    (hs : Goes (loose ∧ (modified = true ∨ lossy ∧ Shown s₀ s)) s₀ s)
    (hahead : Ahead lossy loose c s₀ s segments)
    (haccepts : ¬lossy → c.script = none → s₀.storage.Accepts) :
    (runSegments inner c modified text input segments).Ends (Allows lossy) s (Goes loose s₀)
      fun r t => Goes (loose ∧ Told lossy s₀ r t) s₀ t ∧ (lossy → r.Speaks) := by
  induction segments generalizing modified text input s with
  | nil =>
    refine Run.ends_pure ⟨hs.mono fun h => ⟨h.1, ?_⟩, fun _ => speaks_of_success rfl⟩
    exact h.2.imp_right fun h => ⟨h.1, .inr h.2⟩
  | cons seg rest ih =>
    have hsofar := hahead.sofar hs
    have hseg := hahead.loose seg (List.mem_cons_self ..)
    simp only [runSegments]
    refine Run.ends_get_bind ?_
    split
    · refine Run.ends_pure ⟨told_of_failure rfl hsofar, fun _ => speaks_fail ?_ _⟩
      exact append_ne_empty_right (by simp)
    refine ((ends_runSegment hinner seg input).mono (fun t ht => ?_) fun _ _ h => h).bind ?_
    · exact (hs.mono And.left).trans (ht.mono False.elim)
    rintro r t ⟨ht, hspeaks⟩
    rw [hs.later.commands] at ht
    have hrest := hahead.step (ht.mono And.left)
    have htold : Goes (loose ∧ Told lossy s r t) s t := ht.mono fun h => ⟨hseg h.1, h.2⟩
    cases hsuccess : r.success with
    | false => exact Run.ends_pure ⟨.fail hsuccess hsofar htold, hspeaks⟩
    | true =>
      cases hmodified : r.modified with
      | false =>
        refine ih _ _ _ ((hs.add htold).mono fun h => ⟨h.1, ?_⟩) hrest
        simpa [hsuccess, hmodified] using h.2
      | true =>
        have hgone : Goes loose s₀ t := (hsofar.mono And.left).trans (htold.mono And.left)
        have hlost (hrefused : ¬t.storage.Accepts) : Goes (loose ∧ lossy) s₀ t := by
          refine hsofar.trans (ht.mono fun h => ⟨hseg h.1, ?_⟩)
          refine Classical.byContradiction fun hlossy => hrefused ?_
          exact ht.later.accepts (hs.later.accepts (haccepts hlossy h.1.1))
        refine (ends_saveOr _ hgone hlost).bind fun failure u hu => ?_
        cases failure with
        | none =>
          have hkept := hu.1 rfl
          have hrest := hrest.kept (hkept.root.resolve_right id)
          exact ih _ _ _ ((hgone.trans (hkept.mono False.elim)).mono fun h => ⟨h, .inl rfl⟩) hrest
        | some failure =>
          obtain ⟨hfailed, hsays⟩ := hu.2 failure rfl
          exact Run.ends_pure ⟨hfailed, fun _ => hsays⟩

theorem faultsAre_writeRedirect (c : Caller) (target : Redirect) (text : String) :
    (writeRedirect c target text).FaultsAre Fault.IsNode := by
  have hchange {α : Type} {f : Actor → Update α} (hf : ∀ a, (f a).FaultsAre Fault.IsNode) :
      (Effect.changeFiles c.user f).FaultsAre Fault.IsNode := by
    refine Work.faultsAre_get.bind fun s => ?_
    dsimp only
    exact (Work.faultsAre_change fun _ => _).bind fun _ => Work.faultsAre_lift (hf _ s.files)
  unfold writeRedirect
  refine Work.faultsAre_get.bind fun s => ?_
  dsimp only
  split
  · exact Work.faultsAre_throw_node _
  · refine (hchange fun a => FileSystem.faultsAre_ensureDirectory a _).bind fun parent => ?_
    refine Work.FaultsAre.bind (Work.faultsAre_ask fun s => ?_) fun _ => ?_
    · refine (s.files.faultsAre_node parent).bind fun d _ => ?_
      split
      · split
        · exact faultsAre_node_error _
        · exact Actor.faultsAre_require _ _ _ _
      · exact Actor.faultsAre_require _ _ _ _
    · exact (hchange fun a => FileSystem.faultsAre_writeText a _ _ _ _).bind fun _ =>
        Work.faultsAre_pure ()

theorem ends_writeRedirect {target : Redirect} {text : String}
    (hallow : Allows lossy s (.redirect c target text)) :
    (writeRedirect c target text).Ends s (fun t => Goes lossy s t) fun _ t => Later s t := by
  have hwrite := (malleable s c.job).lockstep_writeRedirect ⟨rfl, later_refl s⟩ target text
  cases hwrite with
  | ok hx _ h => exact Work.ends_of_run hx h.2.2
  | error hx _ h =>
    refine Work.ends_of_fault hx ⟨h.2, ?_⟩
    by_cases hlossy : lossy
    · exact .inr hlossy
    · exact .inl ((hallow.2.2 hlossy).1.ends.fault hx)

theorem ends_deliver (target : Option Redirect) {r : Result String} (hr : r.success = true)
    (haccepts : ¬lossy → c.script = none → s₀.storage.Accepts)
    (hs : Goes ((c.script = none ∧ (lossy ∨ target = none)) ∧ Told lossy s₀ r s) s₀ s) :
    (deliver c target r).Ends (Allows lossy) s (Goes (c.script = none) s₀) fun r t =>
      Goes (c.script = none ∧ Told lossy s₀ r t) s₀ t ∧ (lossy → r.Speaks) := by
  cases target with
  | none =>
    refine Run.ends_pure ⟨hs.mono fun h => ⟨h.1.1, h.2⟩, fun _ => speaks_of_success ?_⟩
    simpa [Result.success] using hr
  | some target =>
    replace hs : Goes (c.script = none ∧ lossy) s₀ s :=
      hs.mono fun h => ⟨h.1.1, by simpa using h.1.2⟩
    refine Run.ends_note_bind fun hallow => Run.ends_outcome_effect_bind ?_
    have hnone : c.script = none := hallow.1.resolve_right (by simp [Note.changesTree])
    have hwrite := ends_writeRedirect hallow
    have hfault := faultsAre_writeRedirect c target (r.data.getD "") s
    cases hrun : (writeRedirect c target (r.data.getD "")).run s with
    | mk out t =>
      cases out with
      | error f =>
        have ht : Goes (c.script = none ∧ lossy) s₀ t :=
          hs.trans ((hwrite.fault hrun).mono fun hlossy => ⟨hnone, hlossy⟩)
        obtain ⟨n, rfl, hn⟩ := (hfault f (by rw [hrun])).ofFault String ""
        dsimp only
        rw [hn]
        refine Run.ends_lift ⟨told_of_failure rfl ht, fun _ => speaks_fail ?_ _⟩
        exact append_ne_empty_right (message_ne_empty n)
      | ok _ =>
        have hlater : Later s t := hwrite.value hrun
        have ht : Goes (c.script = none) s₀ t := ⟨hs.later.trans hlater, .inr hnone⟩
        have hlost (hrefused : ¬t.storage.Accepts) : Goes (c.script = none ∧ lossy) s₀ t := by
          refine ht.mono fun h => ⟨h, Classical.byContradiction fun hlossy => hrefused ?_⟩
          exact ht.later.accepts (haccepts hlossy h)
        refine (ends_saveOr _ ht hlost).bind fun failure u hu => ?_
        cases failure with
        | none =>
          refine Run.ends_pure ⟨?_, fun _ => speaks_of_success rfl⟩
          exact (ht.trans ((hu.1 rfl).mono False.elim)).mono fun h => ⟨h, .inl rfl⟩
        | some failure =>
          obtain ⟨hfailed, hsays⟩ := hu.2 failure rfl
          exact Run.ends_pure ⟨hfailed, fun _ => hsays⟩

theorem ahead_of_changesLast {p : Pipeline}
    (hlast : ¬lossy → c.script = none → p.changesLast s.commands = true) :
    Ahead lossy (c.script = none ∧ (lossy ∨ p.output = none)) c s s p.segments := by
  have hquiet (hlossy : ¬lossy) (seg : Segment)
      (hseg : seg ∈ if p.output.isSome then p.segments else p.segments.dropLast) :
      ¬Loose lossy c s.commands seg := by
    rintro ⟨hnone, hloud⟩
    have hall := hlast hlossy hnone
    rw [Pipeline.changesLast, List.all_eq_true] at hall
    rw [hall seg hseg] at hloud
    cases hloud hlossy
  refine ⟨fun seg hseg h => ⟨h.1, ?_⟩, fun hlossy seg hseg => hquiet hlossy seg ?_, fun _ _ => rfl⟩
  · by_cases hlossy : lossy
    · exact .inl hlossy
    · cases houtput : p.output with
      | none => exact .inr rfl
      | some target => exact absurd h (hquiet hlossy seg (by simpa [houtput] using hseg))
  · split
    · exact List.dropLast_subset _ hseg
    · exact hseg

theorem ends_runPipeline (hinner : Runs lossy inner) (p : Pipeline)
    (hplain : ¬lossy → c.script = none →
      s.storage.Accepts ∧ p.changesLast s.commands = true) :
    (runPipeline inner p c).Ends (Allows lossy) s (Goes (c.script = none) s) fun r t =>
      Goes (c.script = none ∧ Told lossy s r t) s t ∧ (lossy → r.Speaks) := by
  have haccepts (hlossy : ¬lossy) (hnone : c.script = none) := (hplain hlossy hnone).1
  have hahead := ahead_of_changesLast fun hlossy hnone => (hplain hlossy hnone).2
  refine Run.ends_get_bind ?_
  split
  · next f hf =>
    refine Run.ends_lift ?_
    obtain ⟨path, -, hread⟩ := Option.map_eq_some_iff.mp hf
    have hnode := FileSystem.faultsAre_readText _ _ _ f hread
    cases hr : (Result.ofFault "cannot open input: " f : Except Fault (Result String)) with
    | ok r => exact ⟨goes_refl s, fun _ => speaks_ofFault hnode hr⟩
    | error f => exact goes_refl s
  · dsimp only
    have hsegments (input : Option String) :=
      ends_runSegments hinner false "" input p.segments (goes_refl s) hahead haccepts
    refine ((hsegments _).mono (fun t ht => ht.mono And.left) fun _ _ h => h).bind ?_
    rintro r t ⟨ht, hspeaks⟩
    split
    · next hr => exact ends_deliver p.output hr haccepts ht
    · exact Run.ends_pure ⟨ht.mono fun h => ⟨h.1.1, h.2⟩, hspeaks⟩

theorem success_result (progress : Progress) : progress.result.success = progress.succeeded := by
  unfold Progress.result Progress.succeeded Result.success
  cases progress.last <;> rfl

theorem ends_runItem (hinner : Runs lossy inner) (p : Pipeline)
    (hplain : ¬lossy → c.script = none →
      s.storage.Accepts ∧ p.changesLast s.commands = true) :
    (runItem inner p c).Ends (Allows lossy) s (Goes (c.script = none) s) fun r t =>
      Goes (c.script = none ∧ Told lossy s r t) s t ∧ (lossy → r.Speaks) := by
  unfold runItem
  split
  · exact Run.ends_modifyGet
      ⟨goes_of_eq rfl rfl rfl rfl, fun _ => speaks_of_success rfl⟩
  · exact ends_runPipeline hinner p hplain

/-- The flags of the items that ran tell of all changes but those that failures hide. Such a failure
is that of the last item, or has been shown. -/
structure Tracked (lossy : Prop) (c : Caller) (s₀ : Shell) (progress : Progress) (s : Shell) :
    Prop where
  goes : Goes (c.script = none ∧
    (progress.modified = true ∨ lossy ∧ (progress.succeeded = false ∨ Shown s₀ s))) s₀ s
  speaks : lossy → ∀ r, progress.last = some r → r.Speaks

section
variable {progress : Progress}

theorem Tracked.result (h : Tracked lossy c s₀ progress s) :
    Goes (c.script = none ∧ Told lossy s₀ progress.result s) s₀ s := by
  rw [Told, success_result]
  exact h.goes

/-- A failure that speaks is shown before the next item runs. -/
theorem Tracked.succeeded (h : Tracked lossy c s₀ progress s) (hlossy : lossy)
    (hnotice : progress.notice = none) : progress.succeeded = true := by
  unfold Progress.notice at hnotice
  unfold Progress.succeeded
  cases hlast : progress.last with
  | none => rfl
  | some r =>
    rw [hlast] at hnotice
    cases hproblem : r.problem with
    | none => simp [Result.success, hproblem]
    | some p =>
      have htext := h.speaks hlossy r hlast p hproblem
      simp [Result.errorText, hproblem, htext] at hnotice

theorem Tracked.unnoticed (h : Tracked lossy c s₀ progress s) (hnotice : progress.notice = none) :
    Goes (c.script = none ∧ (progress.modified = true ∨ lossy ∧ Shown s₀ s)) s₀ s := by
  refine h.goes.mono fun hp => ⟨hp.1, hp.2.imp_right fun hl => ⟨hl.1, hl.2.resolve_left ?_⟩⟩
  simp [h.succeeded hl.1 hnotice]

theorem Tracked.noticed (h : Tracked lossy c s₀ progress s) (line : String) :
    Goes (c.script = none ∧ (progress.modified = true ∨ lossy ∧ Shown s₀ (s.notify line))) s₀
      (s.notify line) := by
  have hnotified : Goes False s (s.notify line) := ⟨⟨rfl, by simp [Shell.notify], id⟩, .inl rfl⟩
  have hgrown : Shown s (s.notify line) := by simp [Shown, Shell.notify]
  have hshown : Shown s₀ (s.notify line) := h.goes.later.shown hgrown
  refine .trans (h.goes.mono fun hp => ⟨hp.1, ?_⟩) (hnotified.mono False.elim)
  exact hp.2.imp_right fun hl => ⟨hl.1, hshown⟩

theorem tracked_add {r : Result String}
    (hs : Goes (c.script = none ∧ (progress.modified = true ∨ lossy ∧ Shown s₀ s)) s₀ s)
    (ht : Goes (c.script = none ∧ Told lossy s r t) s t) (hspeaks : lossy → r.Speaks) :
    Tracked lossy c s₀ (progress.add r) t := by
  refine ⟨(hs.add ht).mono fun h => ⟨h.1, h.2.imp_left fun hm => ?_⟩, fun hlossy r' hr => ?_⟩
  · simpa [Progress.add] using hm
  · obtain rfl := Option.some.inj hr
    exact hspeaks hlossy

end

theorem ends_runItems (hinner : Runs lossy inner) (previous : Option Connective)
    (progress : Progress) (items : List SequenceItem) (hs : Tracked lossy c s₀ progress s)
    (hplain : ¬lossy → c.script = none → s₀.storage.Accepts ∧
      ∀ i ∈ items, i.pipeline.changesLast s₀.commands = true) :
    (runItems inner c previous progress items).Ends (Allows lossy) s (Goes (c.script = none) s₀)
      fun r t => Goes (c.script = none ∧ Told lossy s₀ r t) s₀ t := by
  induction items generalizing previous progress s with
  | nil => exact Run.ends_pure hs.result
  | cons item rest ih =>
    have hrest (hlossy : ¬lossy) (hnone : c.script = none) := (hplain hlossy hnone).imp_right
      fun h i hi => h i (List.mem_cons_of_mem _ hi)
    have hitem {s : Shell}
        (hs : Goes (c.script = none ∧ (progress.modified = true ∨ lossy ∧ Shown s₀ s)) s₀ s) :
        (runItem inner item.pipeline c >>= fun r =>
          if !r.success && endsAtFailure item.connective then pure (progress.add r).result
          else runItems inner c item.connective (progress.add r) rest).Ends (Allows lossy) s
            (Goes (c.script = none) s₀) fun r t =>
              Goes (c.script = none ∧ Told lossy s₀ r t) s₀ t := by
      have hrun := ends_runItem hinner item.pipeline fun hlossy hnone => by
        obtain ⟨haccepts, hall⟩ := hplain hlossy hnone
        rw [hs.later.commands]
        exact ⟨hs.later.accepts haccepts, hall item (List.mem_cons_self ..)⟩
      refine (hrun.mono (fun t ht => (hs.mono And.left).trans ht) fun _ _ h => h).bind ?_
      rintro r t ⟨ht, hspeaks⟩
      have hadded := tracked_add hs ht hspeaks
      split
      · exact Run.ends_pure hadded.result
      · exact ih _ _ hadded hrest
    simp only [runItems]
    split
    · exact ih _ _ hs hrest
    split
    · next line _ => exact Run.ends_modify_bind (hitem (hs.noticed line))
    · next hnotice => exact hitem (hs.unnoticed hnotice)

theorem readLine_orSession (line : String) (c : Caller) (s : Shell) (record : Bool) :
    readLine line (c.orSession s) record = readLine line c record := by
  unfold Caller.orSession
  split <;> rfl

theorem goes_readLine (line : String) (c : Caller) (record : Bool) (s : Shell) :
    Goes False s ((readLine line c record).run s).2 := by
  simp only [readLine, Work.run_bind, Work.run_get, Work.run_lift]
  cases preprocess line (c.script.map (·.args)) (s.environmentOf c.job).get s.aliases with
  | error f => exact goes_refl s
  | ok text =>
    dsimp only
    split
    · change Goes False s { s with history := s.history.add line }
      exact goes_of_eq rfl rfl rfl rfl
    · exact goes_refl s

theorem runs_runLine (hinner : Runs lossy inner) : Runs lossy (runLine inner) := by
  intro line c record s hplain
  refine Run.ends_get_bind ?_
  dsimp only
  rw [readLine_orSession]
  refine Run.ends_outcome_effect_bind ?_
  have hread := goes_readLine line c record s
  rw [← c.script_orSession s]
  cases hrun : (readLine line c record).run s with
  | mk out t =>
    rw [hrun] at hread
    cases out with
    | error f =>
      refine Run.ends_lift ?_
      cases (Result.ofFault "" f : Except Fault (Result String)) with
      | ok r => exact hread.mono False.elim
      | error f => exact hread.mono False.elim
    | ok items =>
      have hstart : Tracked lossy (c.orSession s) s {} t :=
        ⟨hread.mono False.elim, fun _ _ h => nomatch h⟩
      refine ends_runItems hinner none {} items hstart ?_
      intro hlossy hnone
      obtain ⟨haccepts, hall⟩ := hplain hlossy (c.script_orSession s ▸ hnone)
      exact ⟨haccepts, hall items (by rw [hrun])⟩

theorem runs_nested (n : Nat) : Runs lossy (nested n) := by
  induction n with
  | zero => exact fun _ _ _ s _ => Run.ends_throw (goes_refl s)
  | succ n ih => exact runs_runLine ih

/-- Every line says what it changes, at every depth of scripts and commands built from an input. -/
theorem runs_execute : Runs lossy Shell.execute := runs_nested maxNesting

end Reporting

namespace Terminal
open Reporting

def runsAlone (t : Terminal) (line : String) (user : Option String) (record : Bool) : Bool :=
  t.followsAlone Shell.host (Shell.execute line { user := t.userOr user } record t.state)

/-- Nothing failed: the line succeeded, and nothing was shown, as each failure before its end would
have been. -/
structure Smooth (t t' : Terminal) (r : Result String) (noted : List (Shell × Note)) : Prop where
  success : r.success = true
  console : t'.state.console = t.state.console
  speaks : ∀ n ∈ noted, n.2.Speaks n.1

/-- What may fail has changed nothing before: neither the command or the redirection itself nor
anything in front of it in its pipeline. -/
structure Harmless (t : Terminal) (line : String) (user : Option String) (record : Bool) :
    Prop where
  plain : Plain t.state line { user := t.userOr user } record
  careful : ∀ n ∈ t.noted line user record, n.2.Careful n.1
  single : ∀ n ∈ t.noted line user record, n.2.isFanOut = false

variable {t t' : Terminal} {line : String} {user : Option String} {record : Bool}
  {r : Result String}

theorem goes_of_execute (lossy : Prop) (hend : t.execute line user record = some (.ok r, t'))
    (halone : t.runsAlone line user record = true)
    (hnoted : ∀ n ∈ t.noted line user record, Allows lossy n.1 n.2)
    (hplain : ¬lossy → Plain t.state line { user := t.userOr user } record) :
    Goes (Told lossy t.state r t'.state) t.state t'.state := by
  have hruns : Runs lossy Shell.execute := runs_execute
  have hline := hruns line { user := t.userOr user } record t.state fun hlossy _ => hplain hlossy
  unfold runsAlone at halone
  unfold noted at hnoted
  unfold execute run Runtime.perform at hend
  obtain ⟨s, hs, hstate⟩ := Runtime.ends_follow hline halone hnoted hend
  rw [hstate]
  exact (hs.mono And.right).trans (goes_of_eq rfl rfl rfl rfl)

/-- If no job has its turn meanwhile, a line that does not say that it changed the tree has left it
as it was, unless a script changed it, or a failure hides a change. -/
theorem root_eq_of_unmodified (hend : t.execute line user record = some (.ok r, t'))
    (halone : t.runsAlone line user record = true) (hmodified : r.modified = false)
    (hscripts : ∀ n ∈ t.noted line user record,
      n.2.caller.script = none ∨ n.2.changesTree = false)
    (hfailures : Smooth t t' r (t.noted line user record) ∨ Harmless t line user record) :
    t'.state.files.root = t.state.files.root := by
  rcases hfailures with hsmooth | hharmless
  · have hgoes := goes_of_execute True hend halone
      (fun n hn => ⟨hscripts n hn, fun _ => hsmooth.speaks n hn, fun h => absurd trivial h⟩)
      fun h => absurd trivial h
    refine hgoes.root.resolve_right ?_
    rintro (hm | ⟨-, hfailed | hshown⟩)
    · rw [hmodified] at hm
      cases hm
    · rw [hsmooth.success] at hfailed
      cases hfailed
    · rw [Shown, hsmooth.console] at hshown
      exact Nat.lt_irrefl _ hshown
  · have hgoes := goes_of_execute False hend halone
      (fun n hn => ⟨hscripts n hn, False.elim,
        fun _ => ⟨hharmless.careful n hn, hharmless.single n hn⟩⟩)
      fun _ => hharmless.plain
    refine hgoes.root.resolve_right ?_
    rintro (hm | ⟨hlossy, -⟩)
    · rw [hmodified] at hm
      cases hm
    · exact hlossy

/-- The line waits, and then it cannot write its output. -/
theorem root_eq_of_unmodified_unwritten : ∃ r t',
    recorded.execute "sleep 1; ps > /" = some (.ok r, t') ∧ r.success = false ∧
      r.modified = false ∧ t'.state.files.root = recorded.state.files.root := by
  have hran : (recorded.execute "sleep 1; ps > /").any (fun p =>
      p.1.toOption.any fun r => !r.success && !r.modified) = true := by decide +kernel
  have halone : recorded.runsAlone "sleep 1; ps > /" none true = true := by decide +kernel
  have hnoted : ∀ n ∈ recorded.noted "sleep 1; ps > /" none true,
      n.2.caller.script = none ∧ n.2.isFanOut = false ∧
        n.1.files.root.isDir = true ∧ n.2.isSimple n.1 = true := by decide +kernel
  have hread : ((Execute.readLine "sleep 1; ps > /" { user := rootUser } true).run
      recorded.state).1.toOption.all (fun items =>
        items.all fun i => i.pipeline.changesLast recorded.state.commands) = true := by
    decide +kernel
  have hharmless : Harmless recorded "sleep 1; ps > /" none true := by
    refine ⟨⟨Storage.accepts_memory, fun items hitems i hi => ?_⟩, fun n hn => ?_, fun n hn => ?_⟩
    · rw [show recorded.userOr none = rootUser from rfl] at hitems
      rw [hitems] at hread
      exact List.all_eq_true.mp hread i hi
    · exact Care.careful_of_isSimple (hnoted n hn).2.2.1 (hnoted n hn).2.2.2
    · exact (hnoted n hn).2.1
  obtain ⟨⟨r, t'⟩, hend, hr⟩ := (Option.any_eq_true _ _).mp hran
  cases r with
  | error f => cases hr
  | ok r =>
    obtain ⟨hfailed, hmodified⟩ := Bool.and_eq_true_iff.mp hr
    replace hfailed : r.success = false := by simpa using hfailed
    replace hmodified : r.modified = false := by simpa using hmodified
    exact ⟨r, t', hend, hfailed, hmodified, root_eq_of_unmodified hend halone hmodified
      (fun n hn => .inl (hnoted n hn).1) (.inr hharmless)⟩

end Terminal
end MemShell
