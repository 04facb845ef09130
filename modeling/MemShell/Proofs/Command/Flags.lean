import MemShell.Command.Flags
set_option autoImplicit false

/-!
# Words that are flags and words that stay

The words of a command fall into entries that are read one after the other: an argument, or a word
that declares flags, with the next word if that is the value of one. Short flags may be written
together or one by one.
-/
namespace MemShell.Flags
variable {specs : List FlagSpec} {flags : Flags} {word : String} {c : Char}
  {cs letters : List Char} {words rest front args kept value : List String} {waits : Bool}
  {d : FlagSpec}

def dash (c : Char) : String := String.ofList ['-', c]

structure WellSpelled (specs : List FlagSpec) : Prop where
  short : ∀ d ∈ specs, ∀ s, d.short = some s → ∃ c, c ≠ '-' ∧ s = dash c
  long : ∀ d ∈ specs, ∀ l, d.long = some l → ['-', '-'] <+: l.toList

/-- Letters behind a dash, each of which declares a flag, and the words that say the same one by
one. A flag with a value ends them: what is behind it is the value, and if nothing is, the next
word. -/
inductive Cluster (specs : List FlagSpec) : List Char → List String → Bool → Prop
  | nil : Cluster specs [] [] false
  | switch {c : Char} {cs : List Char} {d : FlagSpec} {words : List String} {waits : Bool}
      (found : short? specs (dash c) = some d) (isSwitch : d.takesValue = false)
      (more : Cluster specs cs words waits) : Cluster specs (c :: cs) (dash c :: words) waits
  | inline {c : Char} {cs : List Char} {d : FlagSpec} (found : short? specs (dash c) = some d)
      (valued : d.takesValue = true) (notEmpty : cs ≠ []) :
      Cluster specs (c :: cs) [dash c, String.ofList cs] false
  | waiting {c : Char} {d : FlagSpec} (found : short? specs (dash c) = some d)
      (valued : d.takesValue = true) : Cluster specs [c] [dash c] true

/-- A word that declares flags, and whether the next word is a value of theirs. -/
inductive Declares (specs : List FlagSpec) : String → Bool → Prop
  | long {word : String} {d : FlagSpec} (notEnd : word ≠ "--")
      (found : long? specs (splitEquals word).1 = some d) :
      Declares specs word (d.takesValue && (splitEquals word).2.isNone)
  | short {letters : List Char} {words : List String} {waits : Bool} (notEmpty : letters ≠ [])
      (cluster : Cluster specs letters words waits) :
      Declares specs (String.ofList ('-' :: letters)) waits

inductive Entry (specs : List FlagSpec) : List String → List String → Prop
  | argument {word : String} (notEnd : word ≠ "--")
      (undeclared : ∀ waits, ¬ Declares specs word waits) : Entry specs [word] [word]
  | flag {word : String} (declares : Declares specs word false) : Entry specs [word] []
  | valued {word : String} (declares : Declares specs word true) (value : String) :
      Entry specs [word, value] []

/-- Words behind which the reader looks for flags, and those of them that stay. -/
inductive Entries (specs : List FlagSpec) : List String → List String → Prop
  | nil : Entries specs [] []
  | cons {words kept front args : List String} (entry : Entry specs words kept)
      (more : Entries specs front args) : Entries specs (words ++ front) (kept ++ args)

inductive Ending (specs : List FlagSpec) : List String → Prop
  | none : Ending specs []
  | dashes (rest : List String) : Ending specs ("--" :: rest)
  | missing {word : String} (declares : Declares specs word true) : Ending specs [word]

/-! ## Declarations -/

theorem short?_eq_some (h : short? specs word = some d) : d ∈ specs ∧ d.short = some word := by
  unfold short? at h
  split at h
  · cases h
  · exact ⟨List.mem_reverse.mp (List.mem_of_find?_eq_some h),
      by simpa using List.find?_some h⟩

theorem long?_eq_some (h : long? specs word = some d) : d ∈ specs ∧ d.long = some word := by
  unfold long? at h
  split at h
  · cases h
  · exact ⟨List.mem_reverse.mp (List.mem_of_find?_eq_some h),
      by simpa using List.find?_some h⟩

theorem WellSpelled.ne_dash (h : WellSpelled specs) (hd : short? specs (dash c) = some d) :
    c ≠ '-' := by
  obtain ⟨hmem, hshort⟩ := short?_eq_some hd
  obtain ⟨other, hother, heq⟩ := h.short d hmem _ hshort
  have hchars : ['-', c] = ['-', other] := String.ofList_injective heq
  cases hchars
  exact hother

theorem WellSpelled.short?_eq_none (h : WellSpelled specs) (hcs : cs ≠ []) :
    short? specs (String.ofList ('-' :: c :: cs)) = none := by
  rw [Option.eq_none_iff_forall_ne_some]
  intro d hd
  obtain ⟨hmem, hshort⟩ := short?_eq_some hd
  obtain ⟨other, -, heq⟩ := h.short d hmem _ hshort
  have hchars : '-' :: c :: cs = ['-', other] := String.ofList_injective heq
  simp_all

theorem WellSpelled.toList_long (h : WellSpelled specs)
    (hd : long? specs (splitEquals word).1 = some d) (hne : word ≠ "--") :
    ∃ c cs, word.toList = '-' :: '-' :: c :: cs := by
  obtain ⟨hmem, hlong⟩ := long?_eq_some hd
  have hkey : (splitEquals word).1.toList <+: word.toList := by
    rw [splitEquals, String.toList_ofList]
    exact List.takeWhile_prefix _
  obtain ⟨tail, htail⟩ := (h.long d hmem _ hlong).trans hkey
  cases tail with
  | nil => exact absurd (String.toList_inj.mp htail.symm) hne
  | cons c cs => exact ⟨c, cs, htail.symm⟩

theorem WellSpelled.not_declares (h : WellSpelled specs) (hword : word.toList.head? ≠ some '-')
    (waits : Bool) : ¬ Declares specs word waits := by
  intro hdeclares
  cases hdeclares with
  | long notEnd found =>
    obtain ⟨c, cs, hdashes⟩ := h.toList_long found notEnd
    rw [hdashes] at hword
    exact hword rfl
  | short notEmpty cluster =>
    rw [String.toList_ofList] at hword
    exact hword rfl

/-! ## Clusters -/

theorem cluster_undeclared {next : Option String} (hd : short? specs (dash c) = none) :
    cluster specs next (c :: cs) = .ok none := by
  rw [dash] at hd
  rw [cluster, hd]

theorem cluster_switch {next : Option String} (hd : short? specs (dash c) = some d)
    (hswitch : d.takesValue = false) : cluster specs next (c :: cs) =
      match cluster specs next cs with
      | .ok (some (settings, used)) => .ok (some ((d.name, .switch true) :: settings, used))
      | r => r := by
  rw [dash] at hd
  rw [cluster, hd]
  exact if_neg (by simp [hswitch])

theorem cluster_inline {next : Option String} (hd : short? specs (dash c) = some d)
    (hvalued : d.takesValue = true) (hcs : cs ≠ []) : cluster specs next (c :: cs) =
      .ok (some ([(d.name, .value (some (String.ofList cs)))], false)) := by
  rw [dash] at hd
  rw [cluster, hd]
  simp [hvalued, hcs]

theorem cluster_waiting {next : Option String} (hd : short? specs (dash c) = some d)
    (hvalued : d.takesValue = true) : cluster specs next [c] =
      match next with
      | some v => .ok (some ([(d.name, .value (some v))], true))
      | none => .error (.usage (.shortNeedsValue c.toString)) := by
  rw [dash] at hd
  rw [cluster, hd]
  cases next <;> simp [hvalued]

theorem Cluster.cluster_ne (h : Cluster specs letters words waits) (next : Option String) :
    cluster specs next letters ≠ .ok none := by
  induction h with
  | nil => simp [Flags.cluster]
  | @switch c cs d words waits found isSwitch more ih =>
    rw [cluster_switch found isSwitch]
    cases hcs : Flags.cluster specs next cs with
    | error f => simp
    | ok o =>
      cases o with
      | none => exact absurd hcs ih
      | some made => simp
  | inline found valued notEmpty => simp [cluster_inline found valued notEmpty]
  | waiting found valued =>
    rw [cluster_waiting found valued]
    cases next <;> simp

theorem exists_cluster {next : Option String} (h : cluster specs next letters ≠ .ok none) :
    ∃ words waits, Cluster specs letters words waits := by
  induction letters with
  | nil => exact ⟨[], false, .nil⟩
  | cons c cs ih =>
    cases hd : short? specs (dash c) with
    | none => exact absurd (cluster_undeclared hd) h
    | some d =>
      cases hvalue : d.takesValue with
      | false =>
        rw [cluster_switch hd hvalue] at h
        obtain ⟨words, waits, hcluster⟩ := ih fun hcs => h (by rw [hcs])
        exact ⟨_, _, .switch hd hvalue hcluster⟩
      | true =>
        by_cases hcs : cs = []
        · subst hcs
          exact ⟨_, _, .waiting hd hvalue⟩
        · exact ⟨_, _, .inline hd hvalue hcs⟩

/-! ## Reading of one word -/

/-- Behind one dash the letters are read as a cluster, if there is one letter as well as if there
are more. -/
theorem readFrom_dash (h : WellSpelled specs) (hc : c ≠ '-') (flags : Flags) (rest : List String) :
    readFrom specs flags (String.ofList ('-' :: c :: cs) :: rest) =
      match cluster specs rest.head? (c :: cs) with
      | .error f => .error f
      | .ok none => keep (String.ofList ('-' :: c :: cs)) (readFrom specs flags rest)
      | .ok (some (settings, used)) =>
        readFrom specs (flags.putAll settings) (if used then rest.tail else rest) := by
  rw [readFrom, String.toList_ofList]
  split
  · next heq =>
    cases heq
    exact absurd rfl hc
  · next heq =>
    cases heq
    exact absurd rfl hc
  · next heq =>
    cases heq
    cases cs with
    | nil =>
      -- A single letter could be read as the word of a flag, with the same outcome.
      cases hd : short? specs (dash c) with
      | none =>
        rw [cluster_undeclared hd, ← dash, hd]
      | some d =>
        rw [← dash, hd]
        cases hvalue : d.takesValue with
        | false =>
          rw [cluster_switch hd hvalue]
          simp [cluster, hvalue, putAll]
        | true =>
          rw [cluster_waiting hd hvalue]
          cases rest with
          | nil => simp [hvalue]
          | cons v rest => simp [hvalue, putAll]
    | cons c' cs =>
      rw [h.short?_eq_none (List.cons_ne_nil c' cs)]
      cases hmade : cluster specs rest.head? (c :: c' :: cs) with
      | error f => rfl
      | ok o =>
        cases o with
        | none => rfl
        | some made =>
          obtain ⟨settings, used⟩ := made
          cases used with
          | false => rfl
          | true => cases rest with
            | nil => rfl
            | cons v rest => rfl
  · next hno => exact absurd rfl (hno c cs)

theorem readFrom_switch (h : WellSpelled specs) (hd : short? specs (dash c) = some d)
    (hswitch : d.takesValue = false) (flags : Flags) (rest : List String) :
    readFrom specs flags (dash c :: rest) =
      readFrom specs (flags.put d.name (.switch true)) rest := by
  rw [dash, readFrom_dash h (h.ne_dash hd), cluster_switch hd hswitch]
  rfl

theorem readFrom_valued (h : WellSpelled specs) (hd : short? specs (dash c) = some d)
    (hvalued : d.takesValue = true) (flags : Flags) (value : String) (rest : List String) :
    readFrom specs flags (dash c :: value :: rest) =
      readFrom specs (flags.put d.name (.value (some value))) rest := by
  rw [dash, readFrom_dash h (h.ne_dash hd), cluster_waiting hd hvalued]
  rfl

/-- The first letter of a cluster may be split off if it is a switch. -/
theorem readFrom_split (h : WellSpelled specs) (hd : short? specs (dash c) = some d)
    (hswitch : d.takesValue = false) (hmore : Cluster specs letters words waits)
    (hne : letters ≠ []) (flags : Flags) (rest : List String) :
    readFrom specs flags (String.ofList ('-' :: c :: letters) :: rest) =
      readFrom specs (flags.put d.name (.switch true))
        (String.ofList ('-' :: letters) :: rest) := by
  obtain ⟨c', cs, rfl⟩ := List.exists_cons_of_ne_nil hne
  have hc' : c' ≠ '-' := by
    cases hmore with
    | switch found _ _ => exact h.ne_dash found
    | inline found _ _ => exact h.ne_dash found
    | waiting found _ => exact h.ne_dash found
  rw [readFrom_dash h (h.ne_dash hd), readFrom_dash h hc', cluster_switch hd hswitch]
  cases hcs : cluster specs rest.head? (c' :: cs) with
  | error f => rfl
  | ok o =>
    cases o with
    | none => exact absurd hcs (hmore.cluster_ne rest.head?)
    | some made => rfl

/-- A cluster is read like the words that say the same one by one. -/
theorem Cluster.readFrom_eq (hspecs : WellSpelled specs) (h : Cluster specs letters words waits)
    (hne : letters ≠ []) (flags : Flags) (rest : List String) :
    readFrom specs flags (String.ofList ('-' :: letters) :: rest) =
      readFrom specs flags (words ++ rest) := by
  induction h generalizing flags with
  | nil => exact absurd rfl hne
  | @switch c cs d words waits found isSwitch more ih =>
    by_cases hcs : cs = []
    · subst hcs
      cases more
      rfl
    · rw [readFrom_split hspecs found isSwitch more hcs, ih hcs, List.cons_append,
        readFrom_switch hspecs found isSwitch]
  | inline found valued notEmpty =>
    rw [readFrom_dash hspecs (hspecs.ne_dash found), cluster_inline found valued notEmpty]
    exact (readFrom_valued hspecs found valued flags _ rest).symm
  | waiting found valued => rfl

/-- Words that are read in full, as settings of flags and without an argument. -/
def Sets (specs : List FlagSpec) (words : List String) : Prop :=
  ∃ set : Flags → Flags, ∀ flags rest,
    readFrom specs flags (words ++ rest) = readFrom specs (set flags) rest

theorem Cluster.sets (hspecs : WellSpelled specs) (h : Cluster specs letters words waits)
    (hvalue : value.length = waits.toNat) : Sets specs (words ++ value) := by
  induction h with
  | nil =>
    obtain rfl := List.length_eq_zero_iff.mp hvalue
    exact ⟨id, fun _ _ => rfl⟩
  | @switch c cs d words waits found isSwitch more ih =>
    obtain ⟨set, hset⟩ := ih hvalue
    refine ⟨fun flags => set (flags.put d.name (.switch true)), fun flags rest => ?_⟩
    rw [List.cons_append, List.cons_append, readFrom_switch hspecs found isSwitch, hset]
  | inline found valued notEmpty =>
    obtain rfl := List.length_eq_zero_iff.mp hvalue
    exact ⟨_, fun flags rest => readFrom_valued hspecs found valued flags _ rest⟩
  | waiting found valued =>
    obtain ⟨v, rfl⟩ := List.length_eq_one_iff.mp hvalue
    exact ⟨_, fun flags rest => readFrom_valued hspecs found valued flags v rest⟩

/-- A cluster that waits for a value has to get one. -/
theorem Cluster.readFrom_error (hspecs : WellSpelled specs) (h : Cluster specs letters words true)
    (flags : Flags) : ∃ f, readFrom specs flags words = .error f := by
  generalize hwaits : true = waits at h
  induction h generalizing flags with
  | nil => cases hwaits
  | @switch c cs d words waits found isSwitch more ih =>
    rw [readFrom_switch hspecs found isSwitch]
    exact ih _ hwaits
  | inline found valued notEmpty => cases hwaits
  | waiting found valued =>
    rw [dash, readFrom_dash hspecs (hspecs.ne_dash found), cluster_waiting found valued]
    exact ⟨_, rfl⟩

theorem readFrom_end (specs : List FlagSpec) (flags : Flags) (rest : List String) :
    readFrom specs flags ("--" :: rest) = .ok (flags, rest) := rfl

theorem readFrom_long (hword : word.toList = '-' :: '-' :: c :: cs) (flags : Flags)
    (rest : List String) : readFrom specs flags (word :: rest) =
      match long? specs (splitEquals word).1 with
      | none => keep word (readFrom specs flags rest)
      | some d =>
        if !d.takesValue then readFrom specs (flags.put d.name (.switch true)) rest
        else
          match (splitEquals word).2 with
          | some v => readFrom specs (flags.put d.name (.value (some v))) rest
          | none =>
            match rest with
            | [] => .error (.usage (.longNeedsValue (splitEquals word).1))
            | v :: rest => readFrom specs (flags.put d.name (.value (some v))) rest := by
  rw [readFrom, hword]
  rfl

theorem Declares.sets (hspecs : WellSpelled specs) (h : Declares specs word waits)
    (value : List String) (hvalue : value.length = waits.toNat) : Sets specs (word :: value) := by
  cases h with
  | @long _ d notEnd found =>
    obtain ⟨c, cs, hword⟩ := hspecs.toList_long found notEnd
    cases hvalued : d.takesValue with
    | false =>
      rw [hvalued, Bool.false_and] at hvalue
      obtain rfl := List.length_eq_zero_iff.mp hvalue
      refine ⟨(·.put d.name (.switch true)), fun flags rest => ?_⟩
      rw [List.cons_append, readFrom_long hword, found]
      simp [hvalued]
    | true =>
      cases hinline : (splitEquals word).2 with
      | some v =>
        rw [hvalued, hinline] at hvalue
        obtain rfl := List.length_eq_zero_iff.mp hvalue
        refine ⟨(·.put d.name (.value (some v))), fun flags rest => ?_⟩
        rw [List.cons_append, readFrom_long hword, found]
        simp [hvalued, hinline]
      | none =>
        rw [hvalued, hinline] at hvalue
        obtain ⟨v, rfl⟩ := List.length_eq_one_iff.mp hvalue
        refine ⟨(·.put d.name (.value (some v))), fun flags rest => ?_⟩
        rw [List.cons_append, readFrom_long hword, found]
        simp [hvalued, hinline]
  | @short letters words _ notEmpty cluster =>
    obtain ⟨set, hset⟩ := cluster.sets hspecs hvalue
    refine ⟨set, fun flags rest => ?_⟩
    rw [List.cons_append, cluster.readFrom_eq hspecs notEmpty, ← List.append_assoc, hset]

theorem Declares.readFrom_error (hspecs : WellSpelled specs) (h : Declares specs word true)
    (flags : Flags) : ∃ f, readFrom specs flags [word] = .error f := by
  generalize hwaits : true = waits at h
  cases h with
  | @long _ d notEnd found =>
    obtain ⟨c, cs, hword⟩ := hspecs.toList_long found notEnd
    obtain ⟨hvalued, hinline⟩ := Bool.and_eq_true_iff.mp hwaits.symm
    rw [Option.isNone_iff_eq_none] at hinline
    rw [readFrom_long hword, found]
    simp only [hvalued, hinline]
    exact ⟨_, rfl⟩
  | @short letters words _ notEmpty cluster =>
    subst hwaits
    rw [cluster.readFrom_eq hspecs notEmpty, List.append_nil]
    exact cluster.readFrom_error hspecs flags

theorem readFrom_undeclared (hspecs : WellSpelled specs) (hne : word ≠ "--")
    (h : ∀ waits, ¬ Declares specs word waits) (flags : Flags) (rest : List String) :
    readFrom specs flags (word :: rest) = keep word (readFrom specs flags rest) := by
  have hlong : long? specs (splitEquals word).1 = none := by
    rw [Option.eq_none_iff_forall_ne_some]
    exact fun d hd => h _ (.long hne hd)
  have hshort (c : Char) (cs : List Char) (next : Option String)
      (hword : word.toList = '-' :: c :: cs) : cluster specs next (c :: cs) = .ok none := by
    refine Classical.byContradiction fun hcluster => ?_
    obtain ⟨words, waits, hmade⟩ := exists_cluster hcluster
    have hdeclares := Declares.short (List.cons_ne_nil c cs) hmade
    rw [← hword, String.ofList_toList] at hdeclares
    exact h waits hdeclares
  by_cases hdash : ∃ c cs, word.toList = '-' :: c :: cs
  · obtain ⟨c, cs, hword⟩ := hdash
    have heq : word = String.ofList ('-' :: c :: cs) := by rw [← hword, String.ofList_toList]
    by_cases hc : c = '-'
    · subst hc
      cases cs with
      | nil => exact absurd heq hne
      | cons c cs => rw [readFrom_long hword, hlong]
    · have hnone := hshort c cs rest.head? hword
      rw [heq, readFrom_dash hspecs hc, hnone]
  · rw [readFrom]
    split
    · next hword => exact absurd ⟨_, _, hword⟩ hdash
    · next hword => exact absurd ⟨_, _, hword⟩ hdash
    · next hword => exact absurd ⟨_, _, hword⟩ hdash
    · rfl

/-! ## Reading of all words -/

theorem foldr_keep (args : List String) (flags : Flags) (rest : List String) :
    args.foldr keep (.ok (flags, rest)) = .ok (flags, args ++ rest) := by
  induction args with
  | nil => rfl
  | cons word args ih => rw [List.foldr_cons, ih, keep, List.cons_append]

theorem foldr_keep_error (args : List String) (f : Fault) :
    args.foldr keep (.error f) = .error f := by
  induction args with
  | nil => rfl
  | cons word args ih => rw [List.foldr_cons, ih, keep]

theorem Entry.run (hspecs : WellSpelled specs) (h : Entry specs words kept) :
    ∃ set : Flags → Flags, ∀ flags rest,
      readFrom specs flags (words ++ rest) = kept.foldr keep (readFrom specs (set flags) rest) := by
  cases h with
  | argument notEnd undeclared =>
    exact ⟨id, fun flags rest => readFrom_undeclared hspecs notEnd undeclared flags rest⟩
  | flag declares => exact declares.sets hspecs [] rfl
  | valued declares value => exact declares.sets hspecs [value] rfl

theorem Entries.run (hspecs : WellSpelled specs) (h : Entries specs front args) :
    ∃ set : Flags → Flags, ∀ flags rest,
      readFrom specs flags (front ++ rest) = args.foldr keep (readFrom specs (set flags) rest) := by
  induction h with
  | nil => exact ⟨id, fun _ _ => rfl⟩
  | cons entry more ih =>
    obtain ⟨first, hfirst⟩ := entry.run hspecs
    obtain ⟨later, hlater⟩ := ih
    refine ⟨later ∘ first, fun flags rest => ?_⟩
    rw [List.append_assoc, hfirst, hlater, List.foldr_append]
    rfl

theorem Entries.sublist (h : Entries specs front args) : args.Sublist front := by
  induction h with
  | nil => exact .slnil
  | cons entry more ih =>
    refine List.Sublist.append ?_ ih
    cases entry with
    | argument notEnd undeclared => exact .refl _
    | flag declares => exact List.nil_sublist _
    | valued declares value => exact List.nil_sublist _

/-- Entry by entry the reader comes to the end, to two dashes, or to a flag whose value is missing.
-/
theorem exists_entries (specs : List FlagSpec) (words : List String) :
    ∃ front args tail, Entries specs front args ∧ Ending specs tail ∧ words = front ++ tail := by
  induction hlength : words.length using Nat.strongRecOn generalizing words with
  | _ k ih =>
    have hmore {entry kept : List String} (rest : List String) (hentry : Entry specs entry kept)
        (hwords : words = entry ++ rest) (hshort : rest.length < k) :
        ∃ front args tail,
          Entries specs front args ∧ Ending specs tail ∧ words = front ++ tail := by
      obtain ⟨front, args, tail, hentries, hending, rfl⟩ := ih _ hshort rest rfl
      exact ⟨_, _, tail, .cons hentry hentries, hending, by rw [hwords, List.append_assoc]⟩
    cases words with
    | nil => exact ⟨[], [], [], .nil, .none, rfl⟩
    | cons word rest =>
      subst hlength
      by_cases hend : word = "--"
      · exact ⟨[], [], _, .nil, .dashes rest, by rw [hend, List.nil_append]⟩
      · by_cases hdeclared : ∃ waits, Declares specs word waits
        · obtain ⟨waits, hdeclares⟩ := hdeclared
          cases waits with
          | false => exact hmore rest (.flag hdeclares) rfl (by simp)
          | true =>
            cases rest with
            | nil => exact ⟨[], [], [word], .nil, .missing hdeclares, rfl⟩
            | cons value rest =>
              have hshort : rest.length < (word :: value :: rest).length :=
                Nat.lt_trans (Nat.lt_succ_self _) (Nat.lt_succ_self _)
              exact hmore rest (.valued hdeclares value) rfl hshort
        · exact hmore rest (.argument hend (not_exists.mp hdeclared)) rfl (by simp)

/-- What is kept of the words: the arguments among the entries, and whatever is behind two dashes.
-/
theorem exists_entries_of_read (hspecs : WellSpelled specs)
    (hread : read specs words = .ok (flags, kept)) :
    ∃ front args, Entries specs front args ∧
      (words = front ∧ kept = args ∨
        ∃ rest, words = front ++ "--" :: rest ∧ kept = args ++ rest) := by
  obtain ⟨front, args, tail, hentries, hending, rfl⟩ := exists_entries specs words
  obtain ⟨set, hset⟩ := hentries.run hspecs
  refine ⟨front, args, hentries, ?_⟩
  rw [read, hset] at hread
  cases hending with
  | none =>
    rw [readFrom, foldr_keep, List.append_nil] at hread
    cases hread
    exact .inl ⟨List.append_nil front, rfl⟩
  | dashes rest =>
    rw [readFrom_end, foldr_keep] at hread
    cases hread
    exact .inr ⟨rest, rfl, rfl⟩
  | missing declares =>
    obtain ⟨f, hf⟩ := declares.readFrom_error hspecs (set (initial specs))
    rw [hf, foldr_keep_error] at hread
    cases hread

/-- The words that stay are some of the words, in their order; the others are two dashes, a word
that declares flags, or the value of one. A cluster may be written as single words wherever flags
are looked for, and behind two dashes all words stay. -/
theorem WellSpelled.read_canonical (h : WellSpelled specs) :
    (∀ words flags kept, read specs words = .ok (flags, kept) → kept.Sublist words ∧
      ∃ front args, Entries specs front args ∧
        (words = front ∧ kept = args ∨
          ∃ rest, words = front ++ "--" :: rest ∧ kept = args ++ rest)) ∧
    (∀ front args letters words waits rest, Entries specs front args → letters ≠ [] →
      Cluster specs letters words waits →
        read specs (front ++ String.ofList ('-' :: letters) :: rest) =
          read specs (front ++ (words ++ rest))) ∧
    ∀ front args rest, Entries specs front args → ∃ flags,
      read specs front = .ok (flags, args) ∧
        read specs (front ++ "--" :: rest) = .ok (flags, args ++ rest) := by
  refine ⟨fun words flags kept hread => ?_,
    fun front args letters words waits rest hfront hne hcluster => ?_,
    fun front args rest hfront => ?_⟩
  · obtain ⟨front, args, hentries, hkept⟩ := exists_entries_of_read h hread
    refine ⟨?_, front, args, hentries, hkept⟩
    rcases hkept with ⟨rfl, rfl⟩ | ⟨rest, rfl, rfl⟩
    · exact hentries.sublist
    · exact hentries.sublist.append (List.sublist_cons_self "--" rest)
  · obtain ⟨set, hset⟩ := hfront.run h
    rw [read, hset, read, hset, hcluster.readFrom_eq h hne]
  · obtain ⟨set, hset⟩ := hfront.run h
    refine ⟨set (initial specs), ?_, ?_⟩
    · have hall := hset (initial specs) []
      rwa [List.append_nil, readFrom, foldr_keep, List.append_nil] at hall
    · rw [read, hset, readFrom_end, foldr_keep]

def sample : List FlagSpec :=
  [{ name := "all", short := some "-a" }, { name := "bare", short := some "-b" },
    { name := "lines", short := some "-n", long := some "--lines", takesValue := true }]

/-- A cluster that takes the next word, behind an argument and before two dashes. -/
theorem WellSpelled.read_canonical_sample :
    WellSpelled sample ∧
      read sample ["x", "-abn", "3", "--", "-a"] =
        read sample ["x", "-a", "-b", "-n", "3", "--", "-a"] ∧
      ∃ flags, read sample ["x", "-abn", "3"] = .ok (flags, ["x"]) ∧
        read sample ["x", "-abn", "3", "--", "-a"] = .ok (flags, ["x", "-a"]) ∧
        ["x", "-a"].Sublist ["x", "-abn", "3", "--", "-a"] := by
  have hspecs : WellSpelled sample := by
    refine ⟨fun d hd s hs => ?_, fun d hd l hl => ?_⟩
    · simp only [sample, List.mem_cons, List.not_mem_nil, or_false] at hd
      rcases hd with rfl | rfl | rfl <;> cases hs
      · exact ⟨'a', by decide, rfl⟩
      · exact ⟨'b', by decide, rfl⟩
      · exact ⟨'n', by decide, rfl⟩
    · simp only [sample, List.mem_cons, List.not_mem_nil, or_false] at hd
      rcases hd with rfl | rfl | rfl <;> cases hl
      decide
  have hplain : Entry sample ["x"] ["x"] :=
    .argument (by decide) (hspecs.not_declares (by decide))
  have hcluster : Cluster sample ['a', 'b', 'n'] ["-a", "-b", "-n"] true :=
    .switch (d := { name := "all", short := some "-a" }) rfl rfl
      (.switch (d := { name := "bare", short := some "-b" }) rfl rfl (.waiting rfl rfl))
  have hfront : Entries sample ["x"] ["x"] := .cons hplain .nil
  have hvalued : Entry sample ["-abn", "3"] [] := .valued (.short (by simp) hcluster) "3"
  obtain ⟨hdivided, hsplit, hend⟩ := WellSpelled.read_canonical hspecs
  obtain ⟨flags, hread, hdashes⟩ := hend _ _ ["-a"] (Entries.cons hplain (.cons hvalued .nil))
  exact ⟨hspecs, hsplit _ _ _ _ _ ["3", "--", "-a"] hfront (by simp) hcluster, flags, hread,
    hdashes, (hdivided _ _ _ hdashes).1⟩

end MemShell.Flags
