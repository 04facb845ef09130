import MemShell.Accounts
import MemShell.Work
import MemShell.Proofs.Sorting
set_option autoImplicit false

namespace MemShell

namespace Table
variable {κ α : Type} [DecidableEq κ] {t : Table κ α}

theorem nodup_keys_put (h : t.keys.Nodup) (key : κ) (value : α) : (t.put key value).keys.Nodup := by
  rw [keys_put]
  split
  · exact h
  · next hnew =>
    refine List.nodup_append.mpr ⟨h, List.pairwise_singleton _ _, fun k hk other hother heq => hnew ?_⟩
    rwa [← List.mem_singleton.mp hother, ← heq]

end Table

namespace Accounts

inductive Call where
  | addUser (name : String) (password : Option String)
  | addGroup (name : String)
  | addToGroup (user group : String)
deriving DecidableEq

def Call.apply (a : Accounts) : Call → Except Fault Accounts
  | addUser name password => a.addUser name password
  | addGroup name => a.addGroup name
  | addToGroup user group => a.addToGroup user group

def openGroup (a : Accounts) (name : String) : Accounts :=
  if a.hasGroup name then a else { a with groups := a.groups.put name [] }

def Call.work : Call → Work Accounts Unit
  | addUser name password => do
    Work.lift (checkName "user" name)
    Work.ask fun a => if a.hasUser name then .error (.account (.exists "user" name)) else .ok ()
    Work.change (·.openGroup name)
    Work.change (·.join name name)
    let digest := (password.filter (!·.isEmpty)).map Sha256.hexDigest
    Work.change fun a => { a with users := a.users.put name ⟨name, name, digest⟩ }
  | addGroup name => do
    Work.lift (checkName "group" name)
    Work.ask fun a => if a.hasGroup name then .error (.account (.exists "group" name)) else .ok ()
    Work.change fun a => { a with groups := a.groups.put name [] }
  | addToGroup user group => do
    Work.ask fun a => (a.getUser user).map fun _ => ()
    Work.ask fun a => if a.hasGroup group then .ok () else .error (.account (.unknown "group" group))
    Work.change (·.join user group)

def after (a : Accounts) (c : Call) : Accounts := (c.work.run a).2

def run (a : Accounts) (calls : List Call) : Accounts := calls.foldl after a

variable {a b : Accounts} {c : Call} {name user group : String}

theorem members_eq_nil (h : a.hasGroup group = false) : a.members group = [] := by
  rw [hasGroup, Table.contains, Option.isSome_eq_false_iff, Option.isNone_iff_eq_none] at h
  rw [members, h, Option.getD_none]

theorem members_put (a : Accounts) (group other : String) (ms : List String) :
    ({ a with groups := a.groups.put group ms } : Accounts).members other =
      if group = other then ms else a.members other := by
  rw [members, members, Table.get?_put]
  split <;> rfl

theorem mem_members_join {other : String} : name ∈ (a.join user group).members other ↔
    name ∈ a.members other ∨ (name = user ∧ group = other) := by
  rw [join, members_put]
  by_cases hgroup : group = other
  · subst hgroup
    by_cases huser : user ∈ a.members group
    · simp only [if_true, List.contains_iff_mem, huser, and_true]
      exact ⟨.inl, fun h => h.elim id (· ▸ huser)⟩
    · simp [huser]
  · simp [hgroup]

theorem members_addGroup (h : a.hasGroup name = false) (other : String) :
    ({ a with groups := a.groups.put name [] } : Accounts).members other = a.members other := by
  rw [members_put]
  split
  · next hname => rw [← hname, members_eq_nil h]
  · rfl

inductive Change (a : Accounts) : Accounts → Prop where
  | user {user : User} (new : a.hasUser user.name = false) (primary : user.primaryGroup = user.name) :
      Change a { a.join user.name user.name with users := a.users.put user.name user }
  | group {name : String} (new : a.hasGroup name = false) :
      Change a { a with groups := a.groups.put name [] }
  | member {user group : String} (known : a.hasUser user = true)
      (stands : a.hasGroup group = true) : Change a (a.join user group)

theorem eq_of_addUser {password : Option String} (h : a.addUser name password = .ok b) :
    isAccountName name = true ∧ a.hasUser name = false ∧ ∃ digest,
      b = { a.join name name with users := a.users.put name ⟨name, name, digest⟩ } := by
  obtain ⟨_, hname, h⟩ := bind_eq_ok_iff.mp h
  unfold checkName at hname
  split at hname
  · next haccount =>
    split at h
    · cases h
    · next hnew =>
      cases h
      exact ⟨haccount, Bool.eq_false_iff.mpr hnew, _, rfl⟩
  · cases hname

theorem hasUser_put (a : Accounts) (groups : Table String (List String)) (user : User) :
    ({ users := a.users.put user.name user, groups } : Accounts).hasUser name = true ↔
      user.name = name ∨ a.hasUser name = true := by
  rw [hasUser, hasUser, Table.contains, Table.contains, Table.get?_put]
  by_cases h : user.name = name
  · simp [h]
  · simp [h]

theorem addUser_eq_ok {password : Option String} (h : a.addUser name password = .ok b) :
    isAccountName name = true ∧ a.hasUser name = false ∧ b.hasUser name = true := by
  obtain ⟨hname, hnew, digest, rfl⟩ := eq_of_addUser h
  exact ⟨hname, hnew, (hasUser_put a _ ⟨name, name, digest⟩).mpr (.inl rfl)⟩

/-- Each group stands once, users are in their own groups, and only users are in groups. -/
structure Consistent (a : Accounts) : Prop where
  distinct : a.groups.keys.Nodup
  primary {name : String} {user : User} :
    a.users.get? name = some user → user.primaryGroup = name
  own {user : String} : a.hasUser user = true → user ∈ a.members user
  known {user group : String} : user ∈ a.members group → a.hasUser user = true

theorem Change.hasUser (h : Change a b) (huser : a.hasUser name = true) : b.hasUser name = true := by
  cases h with
  | user => exact (hasUser_put a _ _).mpr (.inr huser)
  | group => exact huser
  | member => exact huser

theorem Change.keeps (h : Change a b) (ha : a.Consistent) : b.Consistent := by
  have hnodup (group : String) (ms : List String) : (a.groups.put group ms).keys.Nodup :=
    Table.nodup_keys_put ha.distinct group ms
  cases h with
  | @user added hnew hprimary =>
    refine ⟨hnodup _ _, fun {name user} huser => ?_, fun {user} huser => ?_, fun {user group} hmem => ?_⟩
    · rw [Table.get?_put] at huser
      split at huser
      · next hname =>
        cases huser
        rw [hprimary, hname]
      · exact ha.primary huser
    · refine mem_members_join.mpr ?_
      rcases (hasUser_put a _ added).mp huser with rfl | huser
      · exact .inr ⟨rfl, rfl⟩
      · exact .inl (ha.own huser)
    · refine (hasUser_put a _ added).mpr ?_
      rcases mem_members_join.mp hmem with hmem | ⟨rfl, -⟩
      · exact .inr (ha.known hmem)
      · exact .inl rfl
  | group hnew =>
    refine ⟨hnodup _ _, ha.primary, fun {user} huser => ?_, fun {user group} hmem => ?_⟩
    · rw [members_addGroup hnew]
      exact ha.own huser
    · rw [members_addGroup hnew] at hmem
      exact ha.known hmem
  | @member added group hknown =>
    refine ⟨hnodup _ _, ha.primary, fun {user} huser => ?_, fun {user other} hmem => ?_⟩
    · exact mem_members_join.mpr (.inl (ha.own huser))
    · rcases mem_members_join.mp hmem with hmem | ⟨rfl, -⟩
      · exact ha.known hmem
      · exact hknown

end Accounts
end MemShell
