import MemShell.Session
set_option autoImplicit false

namespace MemShell

namespace Table
variable {κ α : Type} [DecidableEq κ] {t : Table κ α} {key : κ} {value : α} {entry : κ × α}

theorem mem_put (h : entry ∈ t.put key value) : entry ∈ t ∨ entry = (key, value) := by
  induction t with
  | nil => exact .inr (List.mem_singleton.mp h)
  | cons first rest ih =>
    obtain ⟨k, v⟩ := first
    rw [put] at h
    split at h
    · next hk =>
      rcases List.mem_cons.mp h with rfl | h
      · exact .inr (by rw [hk])
      · exact .inl (List.mem_cons_of_mem _ h)
    · rcases List.mem_cons.mp h with rfl | h
      · exact .inl List.mem_cons_self
      · exact (ih h).imp_left (List.mem_cons_of_mem _)

theorem mem_erase (h : entry ∈ t.erase key) : entry ∈ t := by
  induction t with
  | nil => exact h
  | cons first rest ih =>
    obtain ⟨k, v⟩ := first
    rw [erase] at h
    split at h
    · exact List.mem_cons_of_mem _ (ih h)
    · rcases List.mem_cons.mp h with rfl | h
      · exact List.mem_cons_self
      · exact List.mem_cons_of_mem _ (ih h)

end Table

namespace Environment

inductive Edit where
  | push
  | pop
  | set (name value : String)
  | unset (name : String)
  | load (frame : Frame)
deriving DecidableEq

def Edit.apply (e : Environment) : Edit → Except Fault Environment
  | push => .ok e.push
  | pop => .ok e.pop
  | set name value => e.set name value
  | unset name => .ok (e.unset name)
  | load frame => .ok (e.load frame)

def edited (e : Environment) (d : Edit) : Environment :=
  match d.apply e with
  | .ok e' => e'
  | .error _ => e

def Edit.bindings : Edit → Frame
  | set name value => if isVariableName name then [(name, value)] else []
  | load frame => frame
  | push | pop | unset _ => []

@[simp] theorem frames_rebase (e : Environment) (f : Frame) :
    (e.rebase f).frames = List.replicate e.depth f := by
  rw [rebase, frames, depth, List.replicate_succ, List.map_const']

/-- Each binding after an edit was there before, in some frame, or comes from the edit. -/
theorem mem_edited {e : Environment} {d : Edit} {frame : Frame} {b : String × String}
    (hframe : frame ∈ (e.edited d).frames) (hb : b ∈ frame) :
    (∃ f ∈ e.frames, b ∈ f) ∨ b ∈ d.bindings := by
  have hkept (f : Frame) (hf : f ∈ e.frames) (hbf : b ∈ f) :
      (∃ f ∈ e.frames, b ∈ f) ∨ b ∈ d.bindings := .inl ⟨f, hf, hbf⟩
  have hbelow : ∀ f ∈ e.below, f ∈ e.frames := fun f hf => List.mem_cons_of_mem _ hf
  have htop : e.top ∈ e.frames := List.mem_cons_self
  cases d with
  | push =>
    rcases List.mem_cons.mp hframe with rfl | hframe
    · exact hkept _ htop hb
    · exact hkept _ hframe hb
  | pop =>
    obtain ⟨top, below⟩ := e
    cases below with
    | nil => exact hkept _ hframe hb
    | cons f fs => exact hkept _ (hbelow _ hframe) hb
  | set name value =>
    rw [edited, Edit.apply, Environment.set] at hframe
    by_cases hname : isVariableName name = true
    · rw [if_pos hname] at hframe
      rcases List.mem_cons.mp hframe with rfl | hframe
      · refine (Table.mem_put hb).imp (fun h => ⟨_, htop, h⟩) fun h => ?_
        rw [h, Edit.bindings, if_pos hname]
        exact List.mem_cons_self
      · exact hkept _ (hbelow _ hframe) hb
    · rw [if_neg hname] at hframe
      exact hkept _ hframe hb
  | unset name =>
    rcases List.mem_cons.mp hframe with rfl | hframe
    · exact hkept _ htop (Table.mem_erase hb)
    · exact hkept _ (hbelow _ hframe) hb
  | load frame =>
    rcases List.mem_cons.mp hframe with rfl | hframe
    · exact .inr hb
    · exact hkept _ (hbelow _ hframe) hb

end Environment

namespace Session

inductive Switch where
  | push (user : String)
  | pop
  | replace (user : String)
deriving DecidableEq

inductive Operation where
  | switch (w : Switch)
  | edit (d : Environment.Edit)
deriving DecidableEq

/-- The login user cannot be popped. -/
def Switch.apply (config : Config) (s : Session) (e : Environment) :
    Switch → Except Fault (Session × Environment)
  | push user => .ok (s.push config user e)
  | pop => (s.pop config e).map (·.2)
  | replace user => .ok (Session.replace config user e)

def after (config : Config) (x : Session × Environment) : Operation → Session × Environment
  | .switch w =>
    match w.apply config x.1 x.2 with
    | .ok y => y
    | .error _ => x
  | .edit d => (x.1, x.2.edited d)

def run (config : Config) (x : Session × Environment) (ops : List Operation) :
    Session × Environment := ops.foldl (after config) x

def bindings (config : Config) (x : Session × Environment) : Operation → Frame
  | .switch w =>
    match w.apply config x.1 x.2 with
    | .ok y => defaults config y.1.current
    | .error _ => []
  | .edit d => d.bindings

def made (config : Config) : Session × Environment → List Operation → Frame
  | _, [] => []
  | x, op :: rest => bindings config x op ++ made config (after config x op) rest

variable {config : Config} {s : Session} {e : Environment} {x y : Session × Environment}
  {w : Switch}

/-- A change of the current user sets all frames anew. -/
theorem environment_of_switch (h : w.apply config s e = .ok y) :
    y.2 = e.rebase (defaults config y.1.current) := by
  cases w with
  | push user =>
    cases h
    rfl
  | replace user =>
    cases h
    rfl
  | pop =>
    obtain ⟨current, outer⟩ := s
    cases outer with
    | nil => cases h
    | cons user rest =>
      cases h
      rfl

/-- Right after a change of the current user the number of frames tells the environment. -/
theorem environment_eq_of_depth {s' : Session} {e' : Environment} {w' : Switch}
    {y' : Session × Environment} (h : w.apply config s e = .ok y)
    (h' : w'.apply config s' e' = .ok y') (huser : y'.1.current = y.1.current)
    (hdepth : y'.2.depth = y.2.depth) : y'.2 = y.2 := by
  have henv := environment_of_switch h
  have henv' := environment_of_switch h'
  rw [henv, henv', Environment.depth_rebase, Environment.depth_rebase] at hdepth
  have hlength : e'.below.length = e.below.length := Nat.succ.inj hdepth
  rw [henv, henv', huser, Environment.rebase, Environment.rebase, List.map_const',
    List.map_const', hlength]

/-- Each binding after an operation was there before, in some frame, or comes from the operation. -/
theorem mem_after {op : Operation} {frame : Frame} {b : String × String}
    (hframe : frame ∈ (after config x op).2.frames) (hb : b ∈ frame) :
    (∃ f ∈ x.2.frames, b ∈ f) ∨ b ∈ bindings config x op := by
  cases op with
  | edit d => exact Environment.mem_edited hframe hb
  | switch w =>
    rw [after] at hframe
    rw [bindings]
    cases hw : w.apply config x.1 x.2 with
    | error f =>
      rw [hw] at hframe
      exact .inl ⟨frame, hframe, hb⟩
    | ok y =>
      rw [hw] at hframe
      dsimp only at hframe
      rw [environment_of_switch hw, Environment.frames_rebase] at hframe
      rw [List.eq_of_mem_replicate hframe] at hb
      exact .inr hb

theorem mem_run {ops : List Operation} {frame : Frame} {b : String × String}
    (hframe : frame ∈ (run config x ops).2.frames) (hb : b ∈ frame) :
    (∃ f ∈ x.2.frames, b ∈ f) ∨ b ∈ made config x ops := by
  induction ops generalizing x with
  | nil => exact .inl ⟨frame, hframe, hb⟩
  | cons op rest ih =>
    rcases ih hframe with ⟨f, hf, hbf⟩ | hmade
    · exact (mem_after hf hbf).imp_right (List.mem_append_left _)
    · exact .inr (List.mem_append_right _ hmade)

/-- Whatever was done before, a change of the current user gives every frame the variables of the
new user and keeps their number. So two runs that come to the same user with as many frames see the
same variables while the same edits are made, and in no frame, however many are popped and whoever
comes next, there is ever a binding again that was not made by the change of user or after it. -/
theorem nothing_left_of_switch {before : List Operation}
    (h : w.apply config (run config x before).1 (run config x before).2 = .ok y) :
    (∀ frame ∈ y.2.frames, frame = defaults config y.1.current) ∧
    y.2.depth = (run config x before).2.depth ∧
    (∀ (x' y' : Session × Environment) (before' : List Operation) (w' : Switch),
      w'.apply config (run config x' before').1 (run config x' before').2 = .ok y' →
      y'.1.current = y.1.current → y'.2.depth = y.2.depth →
      ∀ edits : List Environment.Edit,
        edits.foldl Environment.edited y'.2 = edits.foldl Environment.edited y.2) ∧
    ∀ later, ∀ frame ∈ (run config y later).2.frames, ∀ b ∈ frame,
      b ∈ defaults config y.1.current ∨ b ∈ made config y later := by
  have henv := environment_of_switch h
  have hframes : ∀ frame ∈ y.2.frames, frame = defaults config y.1.current := by
    intro frame hframe
    rw [henv, Environment.frames_rebase] at hframe
    exact List.eq_of_mem_replicate hframe
  refine ⟨hframes, ?_, ?_, ?_⟩
  · rw [henv, Environment.depth_rebase]
  · intro x' y' before' w' h' huser hdepth edits
    rw [environment_eq_of_depth h h' huser hdepth]
  · intro later frame hframe b hb
    refine (mem_run hframe hb).imp_left ?_
    rintro ⟨f, hf, hbf⟩
    rwa [hframes f hf] at hbf

/-- One run comes back to its login user out of root's frames, the other one starts over. -/
theorem nothing_left_of_switch_back :
    let x : Session × Environment := (⟨"root", ["ada"]⟩, .ofFrame [("PIN", "0")])
    let before : List Operation :=
      [.edit (.set "PIN" "1"), .edit .push, .edit (.set "PIN" "2"), .edit .push]
    let x' : Session × Environment := (⟨"ada", []⟩, ⟨[], [[("KEY", "7")]]⟩)
    let before' : List Operation := [.switch .pop, .edit .push]
    ∃ y y', Switch.pop.apply {} (run {} x before).1 (run {} x before).2 = .ok y ∧
      (Switch.replace "ada").apply {} (run {} x' before').1 (run {} x' before').2 = .ok y' ∧
      (∀ frame ∈ y.2.frames, frame = defaults {} "ada") ∧ y.2.depth = 3 ∧
      ∀ edits : List Environment.Edit,
        edits.foldl Environment.edited y'.2 = edits.foldl Environment.edited y.2 := by
  intro x before x' before'
  have h : Switch.pop.apply {} (run {} x before).1 (run {} x before).2 = .ok
    (⟨"ada", []⟩, (run {} x before).2.rebase (defaults {} "ada")) := rfl
  obtain ⟨hframes, hdepth, hsame, -⟩ := nothing_left_of_switch h
  exact ⟨_, _, h, rfl, hframes, hdepth, hsame x' _ before' (.replace "ada") rfl rfl rfl⟩

end Session
end MemShell
