/-
  LaunchPad.Lib.FileTree — a directory as a tree: what a recursive listing finds in it, and
  what writing one file with its missing parent directories does.

  Entries that are neither files nor directories (links, sockets) are listed by no walk.
  A tree is `Plain` when it holds none and no directory names an entry twice.

  Proved:
  - `mem_files_write`: a write changes what is found at its own path, and nothing else.
  - `Plain.write`: a plain tree stays plain.
  - `Plain.files_nodup`: in a plain tree no path is found twice.
-/
import Mathlib.Data.List.Nodup

namespace LaunchPad.Lib

inductive FileTree (ν β : Type) where
  | empty
  | file (name : ν) (body : β) (rest : FileTree ν β)
  | dir (name : ν) (entries rest : FileTree ν β)
  | other (name : ν) (rest : FileTree ν β)

namespace FileTree

variable {ν β : Type}

/-- Every file below, by its path, in the order the entries are listed. -/
def files : FileTree ν β → List (List ν × β)
  | empty => []
  | file name body rest => ([name], body) :: rest.files
  | dir name entries rest => (entries.files.map fun f => (name :: f.1, f.2)) ++ rest.files
  | other _ rest => rest.files

/-- The entries' names. -/
def names : FileTree ν β → List ν
  | empty => []
  | file name _ rest => name :: rest.names
  | dir name _ rest => name :: rest.names
  | other name rest => name :: rest.names

/-- One file under directories of its own. -/
def chain (name : ν) : List ν → β → FileTree ν β
  | [], body => file name body empty
  | next :: path, body => dir name (chain next path body) empty

/-- Write a file, its missing parent directories first. It fails where a parent is not a
    directory, or the target is not a file. -/
def write [DecidableEq ν] : FileTree ν β → ν → List ν → β → Option (FileTree ν β)
  | empty, name, path, body => some (chain name path body)
  | file n b rest, name, path, body =>
    if n = name then if path = [] then some (file n body rest) else none
    else (rest.write name path body).map (file n b)
  | dir n entries rest, name, path, body =>
    if n = name then
      if h : path = [] then none else (entries.write (path.head h) path.tail body).map (dir n · rest)
    else (rest.write name path body).map (dir n entries)
  | other n rest, name, path, body => if n = name then none else (rest.write name path body).map (other n)

/-- Only files and directories, each directory's names distinct and admitted by `p`. -/
def Plain (p : ν → Prop) : FileTree ν β → Prop
  | empty => True
  | file name _ rest => p name ∧ name ∉ rest.names ∧ rest.Plain p
  | dir name entries rest => p name ∧ name ∉ rest.names ∧ entries.Plain p ∧ rest.Plain p
  | other _ _ => False

theorem head_mem_names {d : FileTree ν β} {f : List ν × β} (h : f ∈ d.files) : ∃ name ∈ d.names, f.1.head? = some name := by
  induction d with
  | empty => cases h
  | file name body rest ih =>
    rcases List.mem_cons.mp h with rfl | h
    · exact ⟨name, List.mem_cons_self .., rfl⟩
    · obtain ⟨n, hn, hf⟩ := ih h
      exact ⟨n, List.mem_cons_of_mem _ hn, hf⟩
  | dir name entries rest _ ih =>
    rcases List.mem_append.mp h with h | h
    · obtain ⟨g, _, rfl⟩ := List.mem_map.mp h
      exact ⟨name, List.mem_cons_self .., rfl⟩
    · obtain ⟨n, hn, hf⟩ := ih h
      exact ⟨n, List.mem_cons_of_mem _ hn, hf⟩
  | other name rest ih =>
    obtain ⟨n, hn, hf⟩ := ih h
    exact ⟨n, List.mem_cons_of_mem _ hn, hf⟩

theorem Plain.names_ok {p : ν → Prop} {d : FileTree ν β} (hd : d.Plain p) {f : List ν × β} (h : f ∈ d.files) :
    ∀ name ∈ f.1, p name := by
  induction d generalizing f with
  | empty => cases h
  | file name body rest ih =>
    rcases List.mem_cons.mp h with rfl | h
    · intro n hn
      rw [List.mem_singleton.mp hn]
      exact hd.1
    · exact ih hd.2.2 h
  | dir name entries rest ih ih' =>
    rcases List.mem_append.mp h with h | h
    · obtain ⟨g, hg, rfl⟩ := List.mem_map.mp h
      intro n hn
      rcases List.mem_cons.mp hn with rfl | hn
      · exact hd.1
      · exact ih hd.2.2.1 hg n hn
    · exact ih' hd.2.2.2 h
  | other name rest ih => exact hd.elim

theorem Plain.files_nodup {p : ν → Prop} {d : FileTree ν β} (hd : d.Plain p) : (d.files.map (·.1)).Nodup := by
  induction d with
  | empty => exact List.nodup_nil
  | file name body rest ih =>
    refine List.nodup_cons.mpr ⟨?_, ih hd.2.2⟩
    intro hmem
    obtain ⟨f, hf, hpath⟩ := List.mem_map.mp hmem
    obtain ⟨n, hn, hhead⟩ := head_mem_names hf
    rw [hpath] at hhead
    cases hhead
    exact hd.2.1 hn
  | dir name entries rest ih ih' =>
    have hinner : ((entries.files.map fun f => (name :: f.1, f.2)).map (·.1)).Nodup := by
      have := (ih hd.2.2.1).map (f := fun path => name :: path) (fun a b h => (List.cons.inj h).2)
      simpa [List.map_map, Function.comp_def] using this
    rw [files, List.map_append]
    refine List.nodup_append.mpr ⟨hinner, ih' hd.2.2.2, ?_⟩
    intro a ha b hb hab
    obtain ⟨f, hf, rfl⟩ := List.mem_map.mp ha
    obtain ⟨g, _, rfl⟩ := List.mem_map.mp hf
    obtain ⟨f', hf', rfl⟩ := List.mem_map.mp hb
    obtain ⟨n, hn, hhead⟩ := head_mem_names hf'
    rw [← hab] at hhead
    cases hhead
    exact hd.2.1 hn
  | other name rest ih => exact hd.elim

/-! ## Writes -/

theorem files_chain (name : ν) (path : List ν) (body : β) : (chain name path body).files = [(name :: path, body)] := by
  induction path generalizing name with
  | nil => rfl
  | cons next path ih => simp [chain, files, ih]

theorem Plain.chain {p : ν → Prop} {name : ν} {path : List ν} (hname : p name) (hpath : ∀ n ∈ path, p n) (body : β) :
    (chain name path body).Plain p := by
  induction path generalizing name with
  | nil => exact ⟨hname, List.not_mem_nil, trivial⟩
  | cons next path ih =>
    exact ⟨hname, List.not_mem_nil, ih (hpath next (List.mem_cons_self ..)) fun n hn => hpath n (List.mem_cons_of_mem _ hn),
      trivial⟩

theorem names_chain (name : ν) (path : List ν) (body : β) : (FileTree.chain name path body).names = [name] := by
  cases path <;> rfl

theorem path_ne {d : FileTree ν β} {name : ν} (h : name ∉ d.names) {f : List ν × β} (hf : f ∈ d.files) (path : List ν) :
    f.1 ≠ name :: path := by
  intro hpath
  obtain ⟨n, hn, hhead⟩ := head_mem_names hf
  rw [hpath] at hhead
  cases hhead
  exact h hn

variable [DecidableEq ν]

/-- What a write does to a tree that is not empty: it goes on among the later entries, or it
    ends at the first one, replaces its file, or goes on inside it. -/
theorem write_cons {n m : ν} {path : List ν} {body : β} {rest : FileTree ν β} {entry : FileTree ν β → FileTree ν β}
    {here : Option (FileTree ν β)} {d' : FileTree ν β}
    (h : (if n = m then here else (rest.write m path body).map entry) = some d') :
    (n = m ∧ here = some d') ∨ (n ≠ m ∧ ∃ rest', rest.write m path body = some rest' ∧ d' = entry rest') := by
  split at h
  · exact .inl ⟨‹_›, h⟩
  · obtain ⟨rest', hr, rfl⟩ := Option.map_eq_some_iff.mp h
    exact .inr ⟨‹_›, rest', hr, rfl⟩

theorem mem_names_write {d d' : FileTree ν β} {name : ν} {path : List ν} {body : β} (h : d.write name path body = some d')
    {n : ν} (hn : n ∈ d'.names) : n ∈ d.names ∨ n = name := by
  induction d generalizing d' with
  | empty =>
    cases h
    rw [names_chain] at hn
    exact .inr (List.mem_singleton.mp hn)
  | file m b rest ih =>
    obtain ⟨rfl, hw⟩ | ⟨hm, rest', hr, rfl⟩ := write_cons h
    · split at hw
      · cases hw
        exact .inl hn
      · cases hw
    · rcases List.mem_cons.mp hn with rfl | hn
      · exact .inl (List.mem_cons_self ..)
      · exact (ih hr hn).imp_left (List.mem_cons_of_mem _)
  | dir m entries rest _ ih =>
    obtain ⟨rfl, hw⟩ | ⟨hm, rest', hr, rfl⟩ := write_cons h
    · split at hw
      · cases hw
      · obtain ⟨entries', _, rfl⟩ := Option.map_eq_some_iff.mp hw
        exact .inl hn
    · rcases List.mem_cons.mp hn with rfl | hn
      · exact .inl (List.mem_cons_self ..)
      · exact (ih hr hn).imp_left (List.mem_cons_of_mem _)
  | other m rest ih =>
    obtain ⟨rfl, hw⟩ | ⟨hm, rest', hr, rfl⟩ := write_cons h
    · cases hw
    · rcases List.mem_cons.mp hn with rfl | hn
      · exact .inl (List.mem_cons_self ..)
      · exact (ih hr hn).imp_left (List.mem_cons_of_mem _)

theorem mem_files_write {p : ν → Prop} {d d' : FileTree ν β} {name : ν} {path : List ν} {body : β} (hd : d.Plain p)
    (h : d.write name path body = some d') (f : List ν × β) :
    f ∈ d'.files ↔ f = (name :: path, body) ∨ (f.1 ≠ name :: path ∧ f ∈ d.files) := by
  induction d generalizing name path d' f with
  | empty =>
    cases h
    simp [files_chain, files]
  | file m b rest ih =>
    obtain ⟨rfl, hw⟩ | ⟨hm, rest', hr, rfl⟩ := write_cons h
    · split at hw
      · rename_i hpath
        cases hw
        subst hpath
        simp only [files, List.mem_cons]
        constructor
        · rintro (rfl | hf)
          · exact .inl rfl
          · exact .inr ⟨path_ne hd.2.1 hf [], .inr hf⟩
        · rintro (rfl | ⟨hne, rfl | hf⟩)
          · exact .inl rfl
          · exact absurd rfl hne
          · exact .inr hf
      · cases hw
    · simp only [files, List.mem_cons, ih hd.2.2 hr]
      constructor
      · rintro (rfl | hf | ⟨hne, hf⟩)
        · exact .inr ⟨fun hpath => hm (List.cons.inj hpath).1, .inl rfl⟩
        · exact .inl hf
        · exact .inr ⟨hne, .inr hf⟩
      · rintro (hf | ⟨hne, hf | hf⟩)
        · exact .inr (.inl hf)
        · exact .inl hf
        · exact .inr (.inr ⟨hne, hf⟩)
  | dir m entries rest ih ih' =>
    obtain ⟨rfl, hw⟩ | ⟨hm, rest', hr, rfl⟩ := write_cons h
    · split at hw
      · cases hw
      · rename_i hpath
        obtain ⟨entries', he, rfl⟩ := Option.map_eq_some_iff.mp hw
        have hin := ih hd.2.2.1 he
        rw [List.cons_head_tail] at hin
        simp only [files, List.mem_append, List.mem_map]
        constructor
        · rintro (⟨g, hg, rfl⟩ | hf)
          · rcases (hin g).mp hg with rfl | ⟨hne, hg⟩
            · exact .inl rfl
            · exact .inr ⟨fun heq => hne (List.cons.inj heq).2, .inl ⟨g, hg, rfl⟩⟩
          · exact .inr ⟨path_ne hd.2.1 hf path, .inr hf⟩
        · rintro (rfl | ⟨hne, ⟨g, hg, rfl⟩ | hf⟩)
          · exact .inl ⟨(path, body), (hin _).mpr (.inl rfl), rfl⟩
          · exact .inl ⟨g, (hin g).mpr (.inr ⟨fun heq => hne (congrArg (m :: ·) heq), hg⟩), rfl⟩
          · exact .inr hf
    · simp only [files, List.mem_append, ih' hd.2.2.2 hr]
      constructor
      · rintro (hf | hf | ⟨hne, hf⟩)
        · refine .inr ⟨?_, .inl hf⟩
          obtain ⟨g, _, rfl⟩ := List.mem_map.mp hf
          exact fun hpath => hm (List.cons.inj hpath).1
        · exact .inl hf
        · exact .inr ⟨hne, .inr hf⟩
      · rintro (hf | ⟨hne, hf | hf⟩)
        · exact .inr (.inl hf)
        · exact .inl hf
        · exact .inr (.inr ⟨hne, hf⟩)
  | other m rest ih => exact hd.elim

theorem Plain.write {p : ν → Prop} {d d' : FileTree ν β} {name : ν} {path : List ν} {body : β} (hd : d.Plain p)
    (hname : p name) (hpath : ∀ n ∈ path, p n) (h : d.write name path body = some d') : d'.Plain p := by
  induction d generalizing name path d' with
  | empty =>
    cases h
    exact Plain.chain hname hpath body
  | file m b rest ih =>
    obtain ⟨rfl, hw⟩ | ⟨hm, rest', hr, rfl⟩ := write_cons h
    · split at hw
      · cases hw
        exact hd
      · cases hw
    · refine ⟨hd.1, fun hmem => ?_, ih hd.2.2 hname hpath hr⟩
      exact (mem_names_write hr hmem).elim hd.2.1 hm
  | dir m entries rest ih ih' =>
    obtain ⟨rfl, hw⟩ | ⟨hm, rest', hr, rfl⟩ := write_cons h
    · split at hw
      · cases hw
      · rename_i hne
        obtain ⟨entries', he, rfl⟩ := Option.map_eq_some_iff.mp hw
        refine ⟨hd.1, hd.2.1, ?_, hd.2.2.2⟩
        exact ih hd.2.2.1 (hpath _ (List.head_mem hne)) (fun n hn => hpath n (List.mem_of_mem_tail hn)) he
    · refine ⟨hd.1, fun hmem => ?_, hd.2.2.1, ih' hd.2.2.2 hname hpath hr⟩
      exact (mem_names_write hr hmem).elim hd.2.1 hm
  | other m rest ih => exact hd.elim

end FileTree

end LaunchPad.Lib
