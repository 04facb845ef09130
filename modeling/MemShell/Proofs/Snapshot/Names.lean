import MemShell.Proofs.Snapshot.Reading
import MemShell.Proofs.FileSystem.WellFormed
set_option autoImplicit false

namespace MemShell

def Node.NamesBelow (P : String → Prop) (n : Node) : Prop :=
  ∀ p m, n.at? p = some m → ∀ name ∈ p, P name

theorem Node.namesBelow_dir {P : String → Prop} {a : Attributes} {cs : List (String × Node)}
    (hnodup : (Table.keys cs).Nodup) :
    NamesBelow P (.dir a cs) ↔ ∀ name c, (name, c) ∈ cs → P name ∧ NamesBelow P c := by
  have hget (name : String) (c : Node) (hc : (name, c) ∈ cs) (rest : Place) :
      at? (.dir a cs) (name :: rest) = c.at? rest := by
    have hchild : child? (.dir a cs) name = some c := Table.get?_of_mem hnodup hc
    rw [at?_cons, hchild, Option.bind_some]
  constructor
  · intro h name c hc
    refine ⟨h [name] c (hget name c hc []) name (by simp), fun p m hm other hother => ?_⟩
    exact h (name :: p) m ((hget name c hc p).trans hm) other (by simp [hother])
  · intro h p m hm other hother
    cases p with
    | nil => cases hother
    | cons name rest =>
      rw [at?_cons] at hm
      obtain ⟨c, hchild, hm⟩ := Option.bind_eq_some_iff.mp hm
      obtain ⟨hname, hbelow⟩ := h name c (Table.mem_of_get? hchild)
      rcases List.mem_cons.mp hother with rfl | hother
      · exact hname
      · exact hbelow rest m hm other hother

namespace FileSystem
variable {P : String → Prop} {name : String} {n : Node} {fs fs' : FileSystem}

mutual
def entryNames : Json → List String
  | .obj members => memberNames members
  | _ => []

def memberNames : List (String × Json) → List String
  | [] => []
  | (key, v) :: rest => if key = "children" then childNames v else memberNames rest

def childNames : Json → List String
  | .obj entries => allNames entries
  | _ => []

def allNames : List (String × Json) → List String
  | [] => []
  | (name, v) :: rest => name :: entryNames v ++ allNames rest
end

theorem memberNames_of_no_children {members : List (String × Json)}
    (h : Table.get? members "children" = none) : memberNames members = [] := by
  induction members with
  | nil => rfl
  | cons m rest ih =>
    obtain ⟨key, v⟩ := m
    rw [Table.get?] at h
    split at h
    · cases h
    · next hkey =>
      rw [memberNames, if_neg hkey]
      exact ih h

theorem namesBelow_file (a : Attributes) (text : String) : Node.NamesBelow P (.file a text) := by
  intro p m hm name hname
  cases p with
  | nil => cases hname
  | cons first rest => cases hm

-- By induction on the entry. Along with the names goes that no key stands twice, since otherwise a
-- name could stand in the entry that leads to no node.
mutual
theorem names_readNode (v : Json) {name : String} {n : Node} (h : readNode name v = .ok n) :
    Node.NamesBelow P n ↔ ∀ x ∈ entryNames v, P x := by
  cases v with
  | obj members =>
    obtain ⟨_, hmembers, hreads⟩ := readNode_eq_ok_iff.mp h
    cases hmembers
    rw [entryNames]
    cases hreads with
    | file _ noChildren _ =>
      rw [memberNames_of_no_children noChildren]
      exact ⟨fun _ => by simp, fun _ => namesBelow_file _ _⟩
    | dir _ _ children =>
      obtain ⟨hnodup, hnames⟩ := names_readChildren members children
      rw [Node.namesBelow_dir hnodup]
      exact hnames
  | _ =>
    obtain ⟨_, hmembers, -⟩ := readNode_eq_ok_iff.mp h
    cases hmembers

theorem names_readChildren (members : List (String × Json)) {name : String}
    {cs : List (String × Node)} (h : readChildren name members = .ok cs) :
    (Table.keys cs).Nodup ∧
      ((∀ name c, (name, c) ∈ cs → P name ∧ Node.NamesBelow P c) ↔ ∀ x ∈ memberNames members, P x) := by
  cases members with
  | nil =>
    cases h
    exact ⟨List.nodup_nil, by simp [memberNames]⟩
  | cons m rest =>
    obtain ⟨key, v⟩ := m
    rw [readChildren] at h
    rw [memberNames]
    split at h
    · next hkey =>
      rw [if_pos hkey]
      exact names_readEntries v h
    · next hkey =>
      rw [if_neg hkey]
      exact names_readChildren rest h

theorem names_readEntries (v : Json) {name : String} {cs : List (String × Node)}
    (h : readEntries name v = .ok cs) :
    (Table.keys cs).Nodup ∧
      ((∀ name c, (name, c) ∈ cs → P name ∧ Node.NamesBelow P c) ↔ ∀ x ∈ childNames v, P x) := by
  cases v with
  | obj entries =>
    rw [readEntries] at h
    obtain ⟨hnodup, -, hnames⟩ := names_readAll [] entries h
    rw [childNames]
    exact ⟨hnodup, hnames⟩
  | _ =>
    rw [readEntries] at h
    · cases h
    · rintro entries ⟨⟩

theorem names_readAll (taken : List String) (entries : List (String × Json))
    {cs : List (String × Node)} (h : readAll taken entries = .ok cs) :
    (Table.keys cs).Nodup ∧ (∀ x ∈ Table.keys cs, x ∉ taken) ∧
      ((∀ name c, (name, c) ∈ cs → P name ∧ Node.NamesBelow P c) ↔ ∀ x ∈ allNames entries, P x) := by
  cases entries with
  | nil =>
    cases h
    exact ⟨List.nodup_nil, by simp [Table.keys], by simp [allNames]⟩
  | cons entry rest =>
    obtain ⟨name, v⟩ := entry
    obtain ⟨n, cs', hn, hnew, hrest, rfl⟩ := readAll_cons_eq_ok_iff.mp h
    have hnames := names_readNode v hn
    obtain ⟨hnodup, hfresh, hall⟩ := names_readAll (name :: taken) rest hrest
    refine ⟨?_, ?_, ?_⟩
    · refine List.nodup_cons.mpr ⟨fun hmem => ?_, hnodup⟩
      exact hfresh name hmem (by simp)
    · intro x hx
      rcases List.mem_cons.mp hx with rfl | hx
      · exact hnew
      · exact fun hmem => hfresh x hx (List.mem_cons_of_mem _ hmem)
    · have hhead : (P name ∧ Node.NamesBelow P n) ↔ ∀ x ∈ name :: entryNames v, P x := by
        rw [hnames, List.forall_mem_cons]
      rw [allNames, List.forall_mem_append, ← hhead, ← hall]
      constructor
      · intro h
        exact ⟨h name n (by simp), fun x c hc => h x c (by simp [hc])⟩
      · rintro ⟨hfirst, hothers⟩ x c hc
        rcases List.mem_cons.mp hc with hc | hc
        · cases hc
          exact hfirst
        · exact hothers x c hc
end

def rootEntry (v : Json) : Json := (v.member? "root").getD .null

theorem root_of_run_restore {v : Json} (h : (restore v).run fs = (.ok (), fs')) :
    readNode "" (rootEntry v) = .ok fs'.root := by
  have hends : (restore v).Ends fs (fun _ => True) fun _ t =>
      readNode "" (rootEntry v) = .ok t.root := by
    unfold restore
    refine Work.ends_lift_bind trivial fun root hroot => ?_
    split
    · exact Work.ends_throw trivial
    · refine Work.ends_change_bind ?_
      split
      · refine Work.ends_change ?_
        split <;> exact hroot
      · exact Work.ends_pure hroot
  exact hends.value h

/-- Of the state that an accepted snapshot leads to: its nodes bear valid names, are found at their
paths and share no path just if all names in the snapshot are valid; and they are found at their paths
just if those names can stand in a path. -/
theorem names_of_run_restore {v : Json} (h : (restore v).run fs = (.ok (), fs')) :
    (((∀ p n, fs'.at? p = some n → (∀ name ∈ p, isValidName name = true) ∧
          fs'.place p.text = p ∧ fs'.node (fs'.place p.text) = .ok n) ∧
        ∀ p q n m, fs'.at? p = some n → fs'.at? q = some m → p.text = q.text → p = q) ↔
      ∀ name ∈ entryNames (rootEntry v), isValidName name = true) ∧
    ((∀ p n, fs'.at? p = some n → fs'.place p.text = p ∧ fs'.node (fs'.place p.text) = .ok n) ↔
      ∀ name ∈ entryNames (rootEntry v), PlainName name) := by
  have hroot := root_of_run_restore h
  have hvalid : (∀ p n, fs'.at? p = some n → ∀ name ∈ p, isValidName name = true) ↔
      ∀ name ∈ entryNames (rootEntry v), isValidName name = true := names_readNode _ hroot
  have hplain : (∀ p n, fs'.at? p = some n → p.Plain) ↔
      ∀ name ∈ entryNames (rootEntry v), PlainName name := names_readNode _ hroot
  have hfound : ∀ p n, fs'.at? p = some n → p.Plain →
      fs'.place p.text = p ∧ fs'.node (fs'.place p.text) = .ok n := by
    intro p n hn hp
    have hplace : fs'.place p.text = p := Place.ofPath_text hp fs'.cwd
    rw [hplace]
    exact ⟨rfl, node_eq_ok_iff.mpr hn⟩
  refine ⟨⟨fun hgood => hvalid.mp fun p n hn => (hgood.1 p n hn).1, fun hnames => ?_⟩, ?_⟩
  · have hall := hplain.mpr fun name hname => plainName_of_isValidName (hnames name hname)
    refine ⟨fun p n hn => ⟨hvalid.mpr hnames p n hn, hfound p n hn (hall p n hn)⟩, ?_⟩
    intro p q n m hn hm htext
    exact Place.text_injective (hall p n hn) (hall q m hm) htext
  · rw [← hplain]
    constructor
    · intro hback p n hn
      exact (Place.ofPath_text_eq_iff fs'.cwd p).mp (hback p n hn).1
    · exact fun hnames p n hn => hfound p n hn (hnames p n hn)

def slashNamed : FileSystem where
  root := rootDirectory default
    [("a/b", .file ⟨rootUser, rootUser, Mode.ofFile, default, default⟩ "")]

/-- A name with a slash in it is accepted, and then there is a node that is not found at its path. -/
theorem names_of_run_restore_slash :
    (restore slashNamed.snapshot).run (empty default) = (.ok (), slashNamed) ∧
      ¬ ∀ p n, slashNamed.at? p = some n →
        slashNamed.place p.text = p ∧ slashNamed.node (slashNamed.place p.text) = .ok n := by
  have hrun : (restore slashNamed.snapshot).run (empty default) = (.ok (), slashNamed) := rfl
  refine ⟨hrun, fun hback => ?_⟩
  have hplain := (names_of_run_restore hrun).2.mp hback "a/b" (by decide)
  exact hplain.2.2.2 (by decide)

end FileSystem
end MemShell
