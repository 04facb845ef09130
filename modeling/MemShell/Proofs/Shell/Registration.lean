import MemShell.Proofs.Membership
import MemShell.Proofs.Routine.Completes
import MemShell.Proofs.Shell.Redirection
import MemShell.Proofs.Text.Lines
set_option autoImplicit false

namespace MemShell
open FileSystem

theorem Text.exists_eq_dropFinalNewline_append (s : List Char) :
    ∃ tail, s = dropFinalNewline s ++ tail ∧ ∀ c ∈ tail, c = '\n' := by
  rcases dropFinalNewline_cases s with ⟨front, hs, hdrop⟩ | ⟨-, hdrop⟩
  · exact ⟨['\n'], by rwa [hdrop], fun c hc => List.mem_singleton.mp hc⟩
  · exact ⟨[], by rw [hdrop, List.append_nil], fun c hc => absurd hc List.not_mem_nil⟩

namespace Accounts
variable {name : String}

/-- The name of an account can be given to a node. -/
theorem isValidName_of_isAccountName (h : isAccountName name = true) : isValidName name = true := by
  obtain ⟨tail, hname, htail⟩ := Text.exists_eq_dropFinalNewline_append name.toList
  unfold isAccountName at h
  cases hdrop : Text.dropFinalNewline name.toList with
  | nil =>
    rw [hdrop] at h
    cases h
  | cons first rest =>
    rw [hdrop] at h hname
    obtain ⟨hfirst, hrest⟩ := Bool.and_eq_true_iff.mp h
    have hchar (c : Char) (hc : c ∈ name.toList) : c ≠ '/' ∧ c ≠ Char.ofNat 0 := by
      rw [hname] at hc
      rcases List.mem_append.mp hc with hc | hc
      · rcases List.mem_cons.mp hc with rfl | hc
        · constructor <;> rintro rfl <;> revert hfirst <;> decide
        · have hc := List.all_eq_true.mp hrest c hc
          constructor <;> rintro rfl <;> revert hc <;> decide
      · rw [htail c hc]
        decide
    have hdot (text : String) (htext : text.toList.head? = some '.') : name ≠ text := by
      rintro rfl
      rw [hname, List.cons_append, List.head?_cons] at htext
      obtain rfl := Option.some.inj htext
      revert hfirst
      decide
    have hne : name ≠ "" := by
      rintro rfl
      cases hname
    rw [isValidName_iff]
    exact ⟨⟨hne, hdot "." rfl, hdot ".." rfl, fun hc => (hchar _ hc).1 rfl⟩,
      fun hc => (hchar _ hc).2 rfl⟩

end Accounts

theorem FileSystem.place_home (fs : FileSystem) {name : String} (h : PlainName name) :
    fs.place ("/home/" ++ name) = ["home", name] := by
  have hplain : Place.Plain ["home", name] := by
    intro part hpart
    rcases List.mem_pair.mp hpart with rfl | rfl
    · exact plainName_of_isValidName (by decide)
    · exact h
  have htext : Place.text ["home", name] = "/home/" ++ name := by
    have hfront : "/" ++ ("home" ++ "/") = "/home/" := by decide
    rw [Place.text_eq hplain, String.intercalate_cons_cons, String.intercalate_singleton,
      ← String.append_assoc, hfront]
  rw [← htext]
  exact Place.ofPath_text hplain fs.cwd

namespace Registration
open Execute
variable {s t : Shell} {c : Context} {accounts : Accounts} {name : String} {f : Fault}

theorem ends_makeHome_of_obstructed (hroot : s.files.root.isDir = true)
    (hname : Accounts.isAccountName name = true) (h : Obstructed s.files ["home", name]) :
    (Effect.changeFiles rootUser fun a => makeDirectory a ("/home/" ++ name) true true).Ends s (· = s)
      fun _ _ => False := by
  have hplain := plainName_of_isValidName (Accounts.isValidName_of_isAccountName hname)
  have hmade := ends_makeDirectory (a := s.actor rootUser) hroot ("/home/" ++ name) true true
  refine (Effect.ends_changeFiles_of_unchanged (f := (makeDirectory · _ true true)) hmade).mono ?_
  rintro p _ ⟨files, ⟨rfl, hensured⟩, rfl⟩
  rw [place_home s.files hplain] at hensured
  exact hensured.not_obstructed h

theorem ends_makeHome_of_not_obstructed (hroot : s.files.root.isDir = true)
    (hname : Accounts.isAccountName name = true) (h : ¬ Obstructed s.files ["home", name]) :
    (Effect.changeFiles rootUser fun a => makeDirectory a ("/home/" ++ name) true true).Ends s
      (fun _ => False) fun _ _ => True := by
  have hvalid := Accounts.isValidName_of_isAccountName hname
  have hplace := place_home s.files (plainName_of_isValidName hvalid)
  refine Effect.ends_changeFiles (ends_makeDirectory_of_root hroot rfl ?_ ?_ ?_)
  · rw [hplace]
    exact List.cons_ne_nil _ _
  · rw [hplace]
    intro part hpart
    rcases List.mem_pair.mp hpart with rfl | rfl
    · decide
    · exact hvalid
  · rwa [hplace]

/-- Root adds an account that can be added, and a file stands where its home would be. -/
structure Stranded (s : Shell) (c : Context) (accounts : Accounts) : Prop where
  isRoot : c.user = rootUser
  added : s.accounts.addUser (c.args.headD "") c.args[1]? = .ok accounts
  obstructed : Obstructed s.files ["home", c.args.headD ""]

theorem Stranded.ne (h : Stranded s c accounts) : { s with accounts } ≠ s := by
  intro hsame
  obtain ⟨-, hnew, hadded⟩ := Accounts.addUser_eq_ok h.added
  have haccounts : accounts = s.accounts := congrArg Shell.accounts hsame
  rw [haccounts, hnew] at hadded
  cases hadded

theorem ends_useradd_of_stranded (hroot : s.files.root.isDir = true) (h : Stranded s c accounts) :
    (Builtins.useradd c).Ends s (· = { s with accounts }) fun _ _ => False := by
  have hname := (Accounts.addUser_eq_ok h.added).1
  unfold Builtins.useradd Builtins.requireRoot
  rw [if_pos h.isRoot]
  refine Work.ends_bind_of_run (Work.run_pure () s) (Work.ends_get_bind ?_)
  refine Work.ends_lift_bind_of_ok h.added (Work.ends_change_bind ?_)
  have hmade := ends_makeHome_of_obstructed (s := { s with accounts }) hroot hname h.obstructed
  exact hmade.bind fun _ _ hfalse => hfalse.elim

theorem ends_useradd_of_not_stranded (hroot : s.files.root.isDir = true)
    (h : ∀ accounts, ¬ Stranded s c accounts) :
    (Builtins.useradd c).Ends s (· = s) fun r _ => r.success = true := by
  unfold Builtins.useradd Builtins.requireRoot
  split
  · next hisRoot =>
    refine Work.ends_bind_of_run (Work.run_pure () s) (Work.ends_get_bind ?_)
    refine Work.ends_lift_bind rfl fun accounts hadded => Work.ends_change_bind ?_
    have hname := (Accounts.addUser_eq_ok hadded).1
    have hclear : ¬ Obstructed s.files ["home", c.args.headD ""] :=
      fun hobstructed => h accounts ⟨hisRoot, hadded, hobstructed⟩
    have hmade := ends_makeHome_of_not_obstructed (s := { s with accounts }) hroot hname hclear
    refine (hmade.mono_fault fun _ hfalse => hfalse.elim).bind fun _ _ _ => ?_
    exact Work.ends_change_bind (Work.ends_pure rfl)
  · exact Work.ends_throw rfl

theorem useradd_fault (hroot : s.files.root.isDir = true)
    (h : (Builtins.useradd c).run s = (.error f, t)) :
    (t = s ↔ ∀ accounts, ¬ Stranded s c accounts) ∧
      ∀ accounts, Stranded s c accounts → t = { s with accounts } := by
  have hleft (accounts : Accounts) (hstranded : Stranded s c accounts) : t = { s with accounts } :=
    (ends_useradd_of_stranded hroot hstranded).fault h
  constructor
  · constructor
    · intro hsame accounts hstranded
      exact hstranded.ne ((hleft accounts hstranded).symm.trans hsame)
    · intro hnot
      exact (ends_useradd_of_not_stranded hroot hnot).fault h
  · exact hleft

theorem success_of_useradd {r : Result String} (hroot : s.files.root.isDir = true)
    (h : (Builtins.useradd c).run s = (.ok r, t)) : r.success = true := by
  by_cases hstranded : ∃ accounts, Stranded s c accounts
  · obtain ⟨accounts, hstranded⟩ := hstranded
    exact ((ends_useradd_of_stranded hroot hstranded).value h).elim
  · exact (ends_useradd_of_not_stranded hroot (not_exists.mp hstranded)).value h

def given? (s : Shell) (command : Command) (seg : Segment) (input : Option String)
    (caller : Caller) : Option Context :=
  if (command.contract.requires.filter fun name => !s.hasService name).isEmpty then
    (command.contract.check s.files (s.actor caller.user) seg.args).toOption.map fun i =>
      contextFor s command.contract i seg.name input caller
  else none

theorem success_withData (r : Result String) : (withData r).success = r.success := by
  unfold withData
  split <;> rfl

variable {inner : LineRunner} {between : Shell → List (Shell × Note) → Shell → Prop}
  {command : Command} {seg : Segment} {input : Option String} {caller : Caller}

/-- A failed attempt to add a user leaves the shell as it was, unless root was given an account that
can be added and a file stands where its home would be. Then the account stays. -/
theorem unchanged_iff_not_stranded (hroot : s.files.root.isDir = true)
    (hcommand : s.commands.get? seg.name = some command)
    (haction : command.action = .builtin .useradd) :
    (runSegment inner seg input caller).Ensures between s fun _ r t =>
      ∃ answer, r = .ok answer ∧ (answer.success = false →
        (t = s ↔ ∀ c ∈ given? s command seg input caller, ∀ accounts, ¬ Stranded s c accounts) ∧
        ∀ c ∈ given? s command seg input caller, ∀ accounts, Stranded s c accounts →
          t = { s with accounts }) := by
  have hnone (hgiven : given? s command seg input caller = none) :
      (s = s ↔ ∀ c ∈ given? s command seg input caller, ∀ accounts, ¬ Stranded s c accounts) ∧
        ∀ c ∈ given? s command seg input caller, ∀ accounts, Stranded s c accounts →
          s = { s with accounts } := by
    rw [hgiven]
    exact ⟨iff_of_true rfl nofun, nofun⟩
  -- A missing service and words that are refused end the attempt before the command is run.
  unfold runSegment
  refine Run.ensures_get_bind ?_
  rw [hcommand]
  dsimp only
  split
  · next hmissing =>
    exact Run.ensures_pure ⟨_, rfl, fun _ => hnone (if_neg (by simpa using hmissing))⟩
  · next hserved =>
    have hgiven : given? s command seg input caller = (command.contract.check s.files
        (s.actor caller.user) seg.args).toOption.map fun i =>
          contextFor s command.contract i seg.name input caller := if_pos (by simpa using hserved)
    cases hcheck : command.contract.check s.files (s.actor caller.user) seg.args with
    | error e =>
      rw [hcheck] at hgiven
      exact Run.ensures_pure ⟨_, rfl, fun _ => hnone hgiven⟩
    | ok i =>
      rw [hcheck] at hgiven
      replace hgiven : given? s command seg input caller =
        some (contextFor s command.contract i seg.name input caller) := hgiven
      dsimp only
      generalize contextFor s command.contract i seg.name input caller = c at hgiven
      have hran : (Run.effect (Builtins.useradd c)).Ensures between s fun _ r t =>
        (Builtins.useradd c).run s = (r, t) := Run.ensures_effect rfl
      refine Run.ensures_note_bind ?_
      rw [haction, hgiven]
      refine hran.outcome_bind ?_
      rintro _ r t hrun
      cases r with
      | error f =>
        refine Run.ensures_pure ⟨_, rfl, fun _ => ?_⟩
        simpa using useradd_fault hroot hrun
      | ok r =>
        refine Run.ensures_pure ⟨_, rfl, fun hfailed => ?_⟩
        rw [success_withData, success_of_useradd hroot hrun] at hfailed
        cases hfailed

def squatted : Shell := (Shell.bare Catalogue.users).withFile "/home" ""

/-- Root's attempt leaves the account behind, the attempt of another user does not. -/
theorem unchanged_iff_not_stranded_squatted :
    let inner : LineRunner := fun _ _ _ => pure (.ok "")
    let attempt (user : String) :=
      (runSegment inner ⟨"useradd", ["bob"]⟩ none { user } squatted).through id
    (∃ answer, (attempt rootUser).2.1 = .ok answer ∧ answer.success = false ∧
        (attempt rootUser).2.2 ≠ squatted ∧
        (attempt rootUser).2.2.accounts.hasUser "bob" = true) ∧
      ∃ answer, (attempt "ada").2.1 = .ok answer ∧ answer.success = false ∧
        (attempt "ada").2.2 = squatted := by
  intro inner attempt
  let command : Command := ⟨{ name := "useradd", description := "Create a user and home directory"
                              args := Catalogue.between 1 2 }, .builtin .useradd⟩
  let given (user : String) : Context :=
    { name := "useradd", args := ["bob"], flags := [], paths := [], input := none
      caller := { user }, services := [] }
  have hroot : squatted.files.root.isDir = true := rfl
  have hcommand : squatted.commands.get? "useradd" = some command := rfl
  have hgiven (user : String) :
      given? squatted command ⟨"useradd", ["bob"]⟩ none { user } = some (given user) := rfl
  have hends (user : String)
      (hfailed : (attempt user).2.1.toOption.map Result.success = some false) :
      ∃ answer, (attempt user).2.1 = .ok answer ∧ answer.success = false ∧
        ((attempt user).2.2 = squatted ↔ ∀ accounts, ¬ Stranded squatted (given user) accounts) ∧
        ∀ accounts, Stranded squatted (given user) accounts →
          (attempt user).2.2 = { squatted with accounts } := by
    have hend : (runSegment inner ⟨"useradd", ["bob"]⟩ none { user } squatted).Completes
        (fun _ _ _ => True) (attempt user).1 (attempt user).2.1 (attempt user).2.2 :=
      Step.completes_through (fun _ => trivial) _
    obtain ⟨answer, hanswer, hleft⟩ := unchanged_iff_not_stranded hroot hcommand rfl _ _ _ hend
    rw [hanswer] at hfailed
    have hfailed := Option.some.inj hfailed
    rw [hgiven user] at hleft
    simp only [Option.mem_def, Option.some.injEq, forall_eq'] at hleft
    exact ⟨answer, hanswer, hfailed, hleft hfailed⟩
  constructor
  · obtain ⟨answer, hanswer, hfailed, hsame, hleft⟩ := hends rootUser (by decide +kernel)
    obtain ⟨accounts, hadded⟩ : ∃ accounts, squatted.accounts.addUser "bob" = .ok accounts := by
      have hok : (squatted.accounts.addUser "bob").isOk = true := by decide +kernel
      cases hadded : squatted.accounts.addUser "bob" with
      | ok accounts => exact ⟨accounts, rfl⟩
      | error e =>
        rw [hadded] at hok
        cases hok
    have hstranded : Stranded squatted (given rootUser) accounts :=
      ⟨rfl, hadded, ["home"], ⟨["bob"], rfl⟩, by decide +kernel⟩
    refine ⟨answer, hanswer, hfailed, fun heq => hsame.mp heq accounts hstranded, ?_⟩
    rw [hleft accounts hstranded]
    exact (Accounts.addUser_eq_ok hadded).2.2
  · obtain ⟨answer, hanswer, hfailed, hsame, -⟩ := hends "ada" (by decide +kernel)
    refine ⟨answer, hanswer, hfailed, hsame.mpr fun accounts hstranded => ?_⟩
    have hisRoot := hstranded.isRoot
    revert hisRoot
    decide

end Registration
end MemShell
