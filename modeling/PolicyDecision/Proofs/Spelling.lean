import Mathlib.Data.List.TakeDrop
import PolicyDecision.Command.Arguments

/-!
# The spelling of arguments

The words that name two files and at most one compounder (`Arguments.Spelled`): a file that looks like an
option stands after `--`, where every word is a file, and the name of the compounder stands behind its flag,
joined to it or not. Reading the words gives the arguments exactly if the words spell them
(`Arguments.read_eq_check_iff`), so no other words run a check. Reading goes on from a draft, and the proof
says for every draft what the words that remain spell (`readAll_eq_check_iff`).
-/

namespace PolicyDecision.Arguments

/-- The word is a file where options may stand. A dash alone is one. -/
def IsFile (word : String) : Prop :=
  word ≠ "" ∧ isOption word.toList = false

/-- The words that name a compounder. -/
inductive IsFlag (kind : CompounderKind) : List String → Prop
  | short : IsFlag kind ["-c", kind.name]
  | shortJoined : IsFlag kind ["-c" ++ kind.name]
  | shortEquals : IsFlag kind ["-c=" ++ kind.name]
  | long : IsFlag kind ["--compounder", kind.name]
  | longEquals : IsFlag kind ["--compounder=" ++ kind.name]

/-- The words name these files and these compounders. -/
inductive Spells : List String → List String → List CompounderKind → Prop
  | nil : Spells [] [] []
  | file {word : String} {words files : List String} {kinds : List CompounderKind} (hfile : IsFile word)
      (h : Spells words files kinds) : Spells (word :: words) (word :: files) kinds
  | flag {kind : CompounderKind} {flag words files : List String} {kinds : List CompounderKind}
      (hflag : IsFlag kind flag) (h : Spells words files kinds) :
      Spells (flag ++ words) files (kind :: kinds)
  | filesOnly {files : List String} (h : ∀ file ∈ files, file ≠ "") : Spells ("--" :: files) files []

/-- The words spell the arguments: they name the two files, and the compounder if there is one. -/
def Spelled (arguments : Arguments) (words : List String) : Prop :=
  Spells words [arguments.snapshot, arguments.query] arguments.compounder.toList

/-! ### Words -/

/-- How an argument is written. -/
inductive Argument.Written : Argument → String → Prop
  | file {word : String} (h : isOption word.toList = false) : Written (.file word) word
  | filesOnly : Written .filesOnly "--"
  | shortNext : Written .compounderNext "-c"
  | longNext : Written .compounderNext "--compounder"
  | shortJoined (name : String) : Written (.compounder name) ("-c" ++ name)
  | shortEquals (name : String) : Written (.compounder name) ("-c=" ++ name)
  | longEquals (name : String) : Written (.compounder name) ("--compounder=" ++ name)
  | version (word : String) : Written .version word
  | help (word : String) : Written .help word
  | unknown (word : String) : Written .unknown word

theorem classify_file {word : String} (h : isOption word.toList = false) : classify word = .file word := by
  unfold classify
  split
  all_goals first | rfl | simp_all [isOption]

theorem eq_append_ofList {word start : String} {rest : List Char} (h : word.toList = start.toList ++ rest) :
    word = start ++ String.ofList rest := by
  rw [← String.toList_inj, h, String.toList_append, String.toList_ofList]

/-- What stands before an equals sign, if there is one. -/
theorem of_span_eq {name start rest : List Char} (h : name.span (· ≠ '=') = (start, rest)) :
    name = start ++ rest ∧ (rest = [] ∨ ∃ value, rest = '=' :: value) := by
  rw [List.span_eq_takeWhile_dropWhile] at h
  cases h
  refine ⟨List.takeWhile_append_dropWhile.symm, ?_⟩
  cases hrest : name.dropWhile (· ≠ '=') with
  | nil => exact .inl rfl
  | cons c value =>
    have hc : decide (c ≠ '=') = false := by
      have hne : name.dropWhile (· ≠ '=') ≠ [] := hrest ▸ List.cons_ne_nil c value
      simpa only [hrest, List.head_cons] using List.head_dropWhile_not (p := (· ≠ '=')) hne
    exact .inr ⟨value, by simpa using hc⟩

theorem written_of_classify {word : String} {argument : Argument} (h : classify word = argument) :
    argument.Written word := by
  subst h
  unfold classify
  split
  · next h =>
    rw [show word = "--" from String.toList_inj.1 h]
    exact .filesOnly
  -- The options that are written with two dashes.
  · next h =>
    split
    · next name hname =>
      obtain ⟨rfl, -⟩ := of_span_eq hname
      split
      · next hlong =>
        rw [List.append_nil, hlong] at h
        rw [show word = "--compounder" from String.toList_inj.1 h]
        exact .longNext
      · split
        · exact .version word
        · split
          · exact .help word
          · exact .unknown word
    · next name value hname =>
      split
      · next hlong =>
        obtain ⟨rfl, hrest | ⟨value', hrest⟩⟩ := of_span_eq hname
        · cases hrest
        · cases hrest
          rw [hlong] at h
          rw [show word = "--compounder=" ++ String.ofList value from eq_append_ofList h]
          exact .longEquals _
      · exact .unknown word
  · next h =>
    rw [show word = "-c" from String.toList_inj.1 h]
    exact .shortNext
  · next value h =>
    rw [show word = "-c=" ++ String.ofList value from eq_append_ofList h]
    exact .shortEquals _
  · next value _ _ h =>
    rw [show word = "-c" ++ String.ofList value from eq_append_ofList h]
    exact .shortJoined _
  · exact .version word
  · exact .help word
  · exact .unknown word
  · next h =>
    refine .file ?_
    unfold isOption
    split
    · next h' => exact (h _ _ h').elim
    · rfl

/-! ### Drafts -/

/-- The draft, with these files and compounders after it, makes up the arguments. -/
structure Draft.MakesUp (draft : Draft) (files : List String) (kinds : List CompounderKind)
    (arguments : Arguments) : Prop where
  files_eq : draft.files.reverse ++ files = [arguments.snapshot, arguments.query]
  kinds_eq : draft.compounder.toList ++ kinds = arguments.compounder.toList

namespace Draft

variable {draft : Draft} {files : List String} {kinds : List CompounderKind} {arguments : Arguments}

theorem complete_eq_check_iff : draft.complete = .check arguments ↔ draft.MakesUp [] [] arguments := by
  obtain ⟨read, kind⟩ := draft
  obtain ⟨snapshot, query, compounder⟩ := arguments
  constructor
  · intro h
    unfold complete at h
    split at h
    · next hread =>
      cases hread
      cases h
      exact ⟨rfl, List.append_nil _⟩
    · cases h
  · rintro ⟨hfiles, hkinds⟩
    rw [List.append_nil] at hfiles hkinds
    rw [show read = [query, snapshot] from List.reverse_inj.1 hfiles]
    rw [show kind = compounder by cases kind <;> cases compounder <;> simp_all]
    rfl

theorem addFile_eq {name : String} (hname : name ≠ "") (h : draft.MakesUp (name :: files) kinds arguments) :
    ∃ draft', draft.addFile name = some draft' ∧ draft'.MakesUp files kinds arguments := by
  have hlength : draft.files.length < 2 := by
    have := congrArg List.length h.files_eq
    simp at this
    omega
  refine ⟨{ draft with files := name :: draft.files }, if_neg (by simp [hname, hlength]), ?_, h.kinds_eq⟩
  rw [← h.files_eq]
  simp

theorem of_addFile {name : String} {draft' : Draft} (hadd : draft.addFile name = some draft')
    (h : draft'.MakesUp files kinds arguments) :
    name ≠ "" ∧ draft.MakesUp (name :: files) kinds arguments := by
  unfold addFile at hadd
  split at hadd
  · cases hadd
  · next hcond =>
    cases hadd
    refine ⟨fun hname => hcond (.inl hname), ?_, h.kinds_eq⟩
    rw [← h.files_eq]
    simp

theorem setCompounder_eq {kind : CompounderKind} (h : draft.MakesUp files (kind :: kinds) arguments) :
    ∃ draft', draft.setCompounder kind.name = some draft' ∧ draft'.MakesUp files kinds arguments := by
  obtain ⟨read, first⟩ := draft
  obtain ⟨hfiles, hkinds⟩ := h
  cases first with
  | none =>
    refine ⟨⟨read, some kind⟩, ?_, hfiles, hkinds⟩
    simp [setCompounder, CompounderKind.ofName?_name]
  | some first =>
    have hlength := congrArg List.length hkinds
    have hle : arguments.compounder.toList.length ≤ 1 := Option.length_toList_le
    simp at hlength
    omega

theorem of_setCompounder {name : String} {draft' : Draft} (hset : draft.setCompounder name = some draft')
    (h : draft'.MakesUp files kinds arguments) :
    ∃ kind : CompounderKind, name = kind.name ∧ draft.MakesUp files (kind :: kinds) arguments := by
  obtain ⟨read, first⟩ := draft
  cases first with
  | some first => cases hset
  | none =>
    obtain ⟨kind, hkind, rfl⟩ := Option.map_eq_some_iff.1 hset
    exact ⟨kind, CompounderKind.eq_name_of_ofName? hkind, h.files_eq, h.kinds_eq⟩

end Draft

theorem readFiles_eq_check_iff {draft : Draft} {names : List String} {arguments : Arguments} :
    readFiles draft names = .check arguments ↔
      (∀ name ∈ names, name ≠ "") ∧ draft.MakesUp names [] arguments := by
  induction names generalizing draft with
  | nil =>
    rw [readFiles, Draft.complete_eq_check_iff]
    exact (and_iff_right (List.forall_mem_nil _)).symm
  | cons name names ih =>
    rw [readFiles, List.forall_mem_cons]
    constructor
    · intro h
      split at h
      · next draft' hadd =>
        obtain ⟨hnames, hrest⟩ := ih.1 h
        obtain ⟨hname, hmakes⟩ := Draft.of_addFile hadd hrest
        exact ⟨⟨hname, hnames⟩, hmakes⟩
      · cases h
    · rintro ⟨⟨hname, hnames⟩, hmakes⟩
      obtain ⟨draft', hadd, hrest⟩ := Draft.addFile_eq hname hmakes
      rw [hadd]
      exact ih.2 ⟨hnames, hrest⟩

/-! ### Reading -/

section

variable {draft draft' : Draft} {word name : String} {rest : List String}

theorem readAll_file (hword : classify word = .file name) (hadd : draft.addFile name = some draft') :
    readAll draft (word :: rest) = readAll draft' rest := by
  rw [readAll.eq_def]
  simp only [hword, hadd]

theorem readAll_compounder (hword : classify word = .compounder name)
    (hset : draft.setCompounder name = some draft') :
    readAll draft (word :: rest) = readAll draft' rest := by
  rw [readAll.eq_def]
  simp only [hword, hset]

theorem readAll_compounderNext (hword : classify word = .compounderNext)
    (hname : isOption name.toList = false) (hset : draft.setCompounder name = some draft') :
    readAll draft (word :: name :: rest) = readAll draft' rest := by
  rw [readAll.eq_def]
  simp [hword, hname, hset]

end

theorem readAll_flag {draft draft' : Draft} {kind : CompounderKind} {flag rest : List String}
    (hflag : IsFlag kind flag) (hset : draft.setCompounder kind.name = some draft') :
    readAll draft (flag ++ rest) = readAll draft' rest := by
  have hname : isOption kind.name.toList = false := by cases kind <;> rfl
  cases hflag with
  | short => exact readAll_compounderNext rfl hname hset
  | long => exact readAll_compounderNext rfl hname hset
  | shortJoined =>
    have hword : classify ("-c" ++ kind.name) = .compounder kind.name := by cases kind <;> rfl
    exact readAll_compounder hword hset
  | shortEquals =>
    have hword : classify ("-c=" ++ kind.name) = .compounder kind.name := by cases kind <;> rfl
    exact readAll_compounder hword hset
  | longEquals =>
    have hword : classify ("--compounder=" ++ kind.name) = .compounder kind.name := by cases kind <;> rfl
    exact readAll_compounder hword hset

theorem readAll_of_spells {draft : Draft} {words files : List String} {kinds : List CompounderKind}
    {arguments : Arguments} (h : Spells words files kinds) (hmakes : draft.MakesUp files kinds arguments) :
    readAll draft words = .check arguments := by
  induction h generalizing draft with
  | nil =>
    rw [readAll.eq_def]
    exact Draft.complete_eq_check_iff.2 hmakes
  | @file word words files kinds hfile h ih =>
    obtain ⟨draft', hadd, hrest⟩ := Draft.addFile_eq hfile.1 hmakes
    rw [readAll_file (classify_file hfile.2) hadd]
    exact ih hrest
  | @flag kind flag words files kinds hflag h ih =>
    obtain ⟨draft', hset, hrest⟩ := Draft.setCompounder_eq hmakes
    rw [readAll_flag hflag hset]
    exact ih hrest
  | @filesOnly files h => exact readFiles_eq_check_iff.2 ⟨h, hmakes⟩

theorem spells_of_readAll {draft : Draft} {words : List String} {arguments : Arguments}
    (h : readAll draft words = .check arguments) :
    ∃ files kinds, Spells words files kinds ∧ draft.MakesUp files kinds arguments := by
  fun_induction readAll draft words with
  | case1 draft => exact ⟨[], [], .nil, Draft.complete_eq_check_iff.1 h⟩
  | case2 draft word rest name hword draft' hadd ih =>
    obtain ⟨files, kinds, hspells, hmakes⟩ := ih h
    obtain ⟨hname, hmakes'⟩ := Draft.of_addFile hadd hmakes
    cases written_of_classify hword with
    | file hoption => exact ⟨_, kinds, .file ⟨hname, hoption⟩ hspells, hmakes'⟩
  | case4 draft word rest hword =>
    obtain ⟨hnames, hmakes⟩ := readFiles_eq_check_iff.1 h
    cases written_of_classify hword with
    | filesOnly => exact ⟨rest, [], .filesOnly hnames, hmakes⟩
  | case5 draft word rest name hword draft' hset ih =>
    obtain ⟨files, kinds, hspells, hmakes⟩ := ih h
    obtain ⟨kind, rfl, hmakes'⟩ := Draft.of_setCompounder hset hmakes
    have hflag : IsFlag kind [word] := by
      cases written_of_classify hword with
      | shortJoined => exact .shortJoined
      | shortEquals => exact .shortEquals
      | longEquals => exact .longEquals
    exact ⟨files, kind :: kinds, .flag hflag hspells, hmakes'⟩
  | case9 draft word hword name rest hname draft' hset ih =>
    obtain ⟨files, kinds, hspells, hmakes⟩ := ih h
    obtain ⟨kind, rfl, hmakes'⟩ := Draft.of_setCompounder hset hmakes
    have hflag : IsFlag kind [word, kind.name] := by
      cases written_of_classify hword with
      | shortNext => exact .short
      | longNext => exact .long
    exact ⟨files, kind :: kinds, .flag hflag hspells, hmakes'⟩
  -- Elsewhere reading stops without a check.
  | _ => cases h

theorem read_eq_check_iff {words : List String} {arguments : Arguments} :
    read words = .check arguments ↔ arguments.Spelled words := by
  constructor
  · intro h
    obtain ⟨files, kinds, hspells, hfiles, hkinds⟩ := spells_of_readAll h
    cases hfiles
    cases hkinds
    exact hspells
  · exact fun h => readAll_of_spells h ⟨rfl, rfl⟩

end PolicyDecision.Arguments
