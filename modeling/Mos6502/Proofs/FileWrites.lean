import Mathlib.Data.List.DropRight
import Mos6502.Files.Basic

/-! Writing files. A file that has been written holds what was written, every file at another place is
what it was, and what can be written does not depend on what is in it. A write goes through
directories that are there already, so it takes none away and puts none in the way of another
write. -/
namespace Mos6502.Files
variable {fs : Files} {p q : Place} {image : Image}

/-- Where a path leads, if its names lead through directories. -/
def place (fs : Files) (path : String) : Place := fs.locate (fs.start path) (path.splitOn "/")

@[simp] theorem start_put (path : String) : (fs.put p image).start path = fs.start path := rfl

theorem locate_append (fs : Files) (here : Place) (front back : List String) :
    fs.locate here (front ++ back) = fs.locate (fs.locate here front) back := by
  induction front generalizing here with
  | nil => rfl
  | cons name rest ih =>
    simp only [List.cons_append, locate]
    split
    · exact ih _
    · split <;> exact ih _

theorem locate_eq (fs fs' : Files) (here : Place) (ns : List String) :
    fs.locate here ns = fs'.locate here ns := by
  induction ns generalizing here with
  | nil => rfl
  | cons name rest ih => simp only [locate, ih]

@[simp] theorem place_put (path : String) : (fs.put p image).place path = fs.place path :=
  locate_eq _ _ _ _

theorem eq_splitOn_of_names {path : String} {ns : List String} (h : names path = .ok ns) :
    ns = path.splitOn "/" := by
  unfold names at h
  split at h
  · nomatch h
  · split at h
    · nomatch h
    · split at h
      · nomatch h
      · exact (Except.ok.inj h).symm

/-- A name that leads into a directory: neither empty nor dots, and not too long. -/
structure Proper (name : String) : Prop where
  named : name ∉ ["", ".", ".."]
  short : name.utf8ByteSize ≤ nameLimit

section
variable {name : String} {rest : List String} (here : Place)

theorem locate_stay (h : name = "" ∨ name = ".") :
    fs.locate here (name :: rest) = fs.locate here rest := by
  rw [locate, if_pos h]

theorem locate_up : fs.locate here (".." :: rest) = fs.locate here.dropLast rest := by
  simp [locate]

theorem locate_down (h : name ∉ ["", ".", ".."]) :
    fs.locate here (name :: rest) = fs.locate (here ++ [name]) rest := by
  simp only [List.mem_cons, List.not_mem_nil, or_false, not_or] at h
  rw [locate, if_neg (by tauto), if_neg h.2.2]

end

theorem locate_concat {name : String} (h : name ∉ ["", ".", ".."]) (fs : Files) (here : Place)
    (parents : List String) :
    fs.locate here (parents ++ [name]) = fs.locate here parents ++ [name] := by
  rw [locate_append, locate_down _ h, locate]

theorem lookup_put_of_ne (h : q ≠ p) (entries : List (Place × Image)) :
    ((p, image) :: entries.filter fun e => e.1 != p).lookup q = entries.lookup q := by
  have hcons (rest : List (Place × Image)) : ((p, image) :: rest).lookup q = rest.lookup q := by
    rw [List.lookup_cons, beq_false_of_ne h]
  rw [hcons]
  induction entries with
  | nil => rfl
  | cons e rest ih =>
    by_cases he : e.1 = p
    · have hne : (q == e.1) = false := beq_false_of_ne fun hq => h (hq.trans he)
      rw [List.filter_cons_of_neg (by simp [he]), ih, List.lookup_cons, hne]
    · rw [List.filter_cons_of_pos (by simp [he]), List.lookup_cons, List.lookup_cons, ih]

@[simp] theorem entry?_put_self : entry? (fs.put p image) p = some (.file image) := by
  unfold entry?
  simp [put]

theorem entry?_put_of_file {content : Image} (h : q ≠ p) (hq : fs.entry? q = some (.file content)) :
    entry? (fs.put p image) q = some (.file content) := by
  unfold entry? at hq ⊢
  rw [put, lookup_put_of_ne h]
  cases hlookup : fs.entries.lookup q with
  | none =>
    rw [hlookup] at hq
    dsimp only at hq
    split at hq <;> simp at hq
  | some found => rwa [hlookup] at hq

theorem isDirectory_of_entry (h : fs.entry? q = some .directory) : fs.isDirectory q = true := by
  unfold entry? at h
  cases hlookup : fs.entries.lookup q with
  | none =>
    rw [hlookup] at h
    dsimp only at h
    split at h
    · assumption
    · simp at h
  | some found => simp [hlookup] at h

/-- Nothing is a directory after a write that was none before, but what is on the way to the file. -/
theorem isDirectory_put_iff :
    (fs.put p image).isDirectory q = true ↔
      fs.isDirectory q = true ∨ (q <+: p ∧ q ≠ p) := by
  simp only [isDirectory, put, Bool.or_eq_true, List.any_cons, Bool.and_eq_true, List.any_filter,
    bne_iff_ne, List.isPrefixOf_iff_prefix, List.any_eq_true]
  constructor
  · rintro (hhome | hnew | ⟨e, he, -, hbelow⟩)
    · exact .inl (.inl hhome)
    · exact .inr hnew
    · exact .inl (.inr ⟨e, he, hbelow⟩)
  · rintro ((hhome | ⟨e, he, hbelow⟩) | hnew)
    · exact .inl hhome
    · by_cases hep : e.1 = p
      · exact .inr (.inl (hep ▸ hbelow))
      · exact .inr (.inr ⟨e, he, hep, hbelow⟩)
    · exact .inr (.inl hnew)

theorem entry?_put_of_directory (hp : fs.entry? p ≠ some .directory)
    (hq : fs.entry? q = some .directory) : entry? (fs.put p image) q = some .directory := by
  have hne : q ≠ p := fun h => hp (h ▸ hq)
  have hdir : (fs.put p image).isDirectory q = true :=
    isDirectory_put_iff.2 (.inl (isDirectory_of_entry hq))
  have hlookup : (fs.put p image).entries.lookup q = fs.entries.lookup q := lookup_put_of_ne hne _
  unfold entry? at hq ⊢
  rw [hlookup, hdir]
  cases hfound : fs.entries.lookup q with
  | none => rfl
  | some found => simp [hfound] at hq

/-- Names lead from a directory to an entry, one after the other. -/
inductive Leads (fs : Files) : Place → List String → Entry → Prop
  | here {p : Place} : Leads fs p [] .directory
  | stay {p : Place} {name : String} {rest : List String} {e : Entry} :
    name = "" ∨ name = "." → Leads fs p rest e → Leads fs p (name :: rest) e
  | up {p : Place} {rest : List String} {e : Entry} :
    Leads fs p.dropLast rest e → Leads fs p (".." :: rest) e
  | down {p : Place} {name : String} {rest : List String} {e : Entry} :
    Proper name → fs.entry? (p ++ [name]) = some .directory →
      Leads fs (p ++ [name]) rest e → Leads fs p (name :: rest) e
  | file {p : Place} {name : String} {content : Image} :
    Proper name → fs.entry? (p ++ [name]) = some (.file content) →
      Leads fs p [name] (.file content)

section
variable {here : Place} {ns : List String} {e : Entry}

theorem leads_of_walk (h : fs.walk here ns = .ok e) : fs.Leads here ns e := by
  induction ns generalizing here with
  | nil =>
    obtain rfl := Except.ok.inj h
    exact .here
  | cons name rest ih =>
    unfold walk at h
    split at h
    · rename_i hstay
      exact .stay hstay (ih h)
    · split at h
      · rename_i hup
        exact hup ▸ .up (ih h)
      · split at h
        · exact nomatch h
        · rename_i hstay hup hlong
          have hproper : Proper name := ⟨by simp; tauto, Nat.not_lt.1 hlong⟩
          split at h
          · exact nomatch h
          · rename_i hentry
            exact .down hproper hentry (ih h)
          · rename_i content hentry
            split at h
            · rename_i hlast
              obtain rfl := hlast
              obtain rfl := Except.ok.inj h
              exact .file hproper hentry
            · exact nomatch h

theorem Leads.walk_eq (h : fs.Leads here ns e) : fs.walk here ns = .ok e := by
  have hbranches {name : String} (h : Proper name) :
      ¬(name = "" ∨ name = ".") ∧ name ≠ ".." ∧ ¬nameLimit < name.utf8ByteSize := by
    obtain ⟨hnamed, hshort⟩ := h
    simp only [List.mem_cons, List.not_mem_nil, or_false, not_or] at hnamed
    exact ⟨by tauto, hnamed.2.2, Nat.not_lt.2 hshort⟩
  induction h with
  | here => rfl
  | stay hstay _ ih => rw [walk, if_pos hstay, ih]
  | up _ ih => rw [walk, if_neg (by decide), if_pos rfl, ih]
  | down hproper hentry _ ih =>
    obtain ⟨hstay, hup, hlong⟩ := hbranches hproper
    rw [walk, if_neg hstay, if_neg hup, if_neg hlong, hentry, ← ih]
  | file hproper hentry =>
    obtain ⟨hstay, hup, hlong⟩ := hbranches hproper
    rw [walk, if_neg hstay, if_neg hup, if_neg hlong, hentry]
    rfl

theorem Leads.put (h : fs.Leads here ns e) (hp : fs.entry? p ≠ some .directory)
    (he : e = .directory ∨ fs.locate here ns ≠ p) : (fs.put p image).Leads here ns e := by
  induction h with
  | here => exact .here
  | stay hstay _ ih => exact .stay hstay (ih (by rwa [locate_stay _ hstay] at he))
  | up _ ih => exact .up (ih (by rwa [locate_up] at he))
  | down hproper hentry _ ih =>
    exact .down hproper (entry?_put_of_directory hp hentry)
      (ih (by rwa [locate_down _ hproper.named] at he))
  | file hproper hentry =>
    rw [locate_down _ hproper.named, locate] at he
    obtain hdir | hne := he
    · exact nomatch hdir
    · exact .file hproper (entry?_put_of_file hne hentry)

theorem Leads.append {back : List String} (h : fs.Leads here ns .directory)
    (hback : fs.Leads (fs.locate here ns) back e) : fs.Leads here (ns ++ back) e := by
  generalize hdir : Entry.directory = d at h
  induction h with
  | here => exact hback
  | stay hstay _ ih => exact .stay hstay (ih (by rwa [locate_stay _ hstay] at hback) hdir)
  | up _ ih => exact .up (ih (by rwa [locate_up] at hback) hdir)
  | down hproper hentry _ ih =>
    exact .down hproper hentry (ih (by rwa [locate_down _ hproper.named] at hback) hdir)
  | file => exact nomatch hdir

theorem isDirectory_of_prefix_start {path : String} (h : q <+: fs.start path) :
    fs.isDirectory q = true := by
  have hhome : q <+: fs.home := by
    unfold start at h
    split at h
    · rw [List.prefix_nil.1 h]
      exact List.nil_prefix
    · exact h
  simp [isDirectory, List.isPrefixOf_iff_prefix.2 hhome]

theorem Leads.isDirectory_above (h : fs.Leads here ns .directory)
    (hhere : ∀ q, q <+: here → fs.isDirectory q = true) :
    ∀ q, q <+: fs.locate here ns → fs.isDirectory q = true := by
  generalize hdir : Entry.directory = d at h
  induction h with
  | here => exact hhere
  | stay hstay _ ih =>
    rw [locate_stay _ hstay]
    exact ih hhere hdir
  | up _ ih =>
    rw [locate_up]
    exact ih (fun q hq => hhere q (hq.trans (List.dropLast_prefix _))) hdir
  | down hproper hentry _ ih =>
    rw [locate_down _ hproper.named]
    refine ih (fun q hq => ?_) hdir
    obtain rfl | hq := List.prefix_concat_iff.1 hq
    · exact isDirectory_of_entry hentry
    · exact hhere q hq
  | file => exact nomatch hdir

end

/-- A path that a file can be written under: it leads through directories that are there to a name
that no directory has. -/
structure Admits (fs : Files) (path : String) (parents : List String) (name : String) : Prop where
  names_eq : names path = .ok (parents ++ [name])
  walk_eq : fs.walk (fs.start path) parents = .ok .directory
  proper : name ∉ ["", ".", ".."]
  short : name.utf8ByteSize ≤ nameLimit
  free : fs.entry? (fs.place path) ≠ some .directory

/-- Whether a file can be written under a path. -/
def Writable (fs : Files) (path : String) : Prop := ∃ parents name, fs.Admits path parents name

section
variable {path : String} {parents : List String} {name : String}

theorem Admits.place_eq (h : fs.Admits path parents name) :
    fs.place path = fs.locate (fs.start path) parents ++ [name] := by
  rw [place, ← eq_splitOn_of_names h.names_eq, locate_concat h.proper]

theorem Admits.write_eq (h : fs.Admits path parents name) (image : Image) :
    fs.write path image = .ok (fs.put (fs.place path) image) := by
  have hproper := h.proper
  simp only [List.mem_cons, List.not_mem_nil, or_false, not_or] at hproper
  have hclosed : ((parents ++ [name]).reverse.dropWhile (· == "")).reverse = parents ++ [name] :=
    List.rdropWhile_concat_neg _ _ _ (by simp [hproper.1])
  have hplace : fs.locate (fs.start path) (parents ++ [name]) = fs.place path := by
    rw [h.place_eq, locate_concat h.proper]
  have hlast : (parents ++ [name]).getLast?.getD "." = name := by simp
  simp only [write, h.names_eq, bind, Except.bind, hclosed, hlast, List.dropLast_concat, h.walk_eq,
    hplace]
  rw [if_neg (by simp [hproper.2.1, hproper.2.2]), if_neg (Nat.not_lt.2 h.short)]
  have hfree := h.free
  split
  · rename_i heq
    exact absurd heq hfree
  · rfl

theorem admits_of_write {fs' : Files} (h : fs.write path image = .ok fs') :
    ∃ parents name, fs.Admits path parents name := by
  unfold write at h
  cases hnames : names path with
  | error e => simp [hnames, bind, Except.bind] at h
  | ok all =>
    simp only [hnames, bind, Except.bind] at h
    have hclosed := List.rdropWhile_prefix (· == "") (l := all)
    have hlast := fun hne => List.rdropWhile_last_not (· == "") all hne
    unfold List.rdropWhile at hclosed hlast
    generalize (all.reverse.dropWhile (· == "")).reverse = closed at h hclosed hlast
    cases hwalk : fs.walk (fs.start path) closed.dropLast with
    | error e => simp [hwalk] at h
    | ok entry =>
      cases entry with
      | file content => simp [hwalk, throw, throwThe, MonadExceptOf.throw] at h
      | directory =>
        simp only [hwalk] at h
        split at h
        · simp [throw, throwThe, MonadExceptOf.throw] at h
        · rename_i hgood
          split at h
          · simp [throw, throwThe, MonadExceptOf.throw] at h
          · rename_i hshort
            simp only [not_or, Nat.not_lt] at hgood hshort
            obtain rfl : closed = all :=
              hclosed.eq_of_length (Nat.le_antisymm hclosed.length_le hgood.2.2)
            obtain ⟨parents, name, rfl⟩ : ∃ parents name, closed = parents ++ [name] := by
              obtain rfl | ⟨parents, name, hname⟩ := closed.eq_nil_or_concat
              · simp at hgood
              · exact ⟨parents, name, by simpa using hname⟩
            simp only [List.getLast?_concat, Option.getD_some, List.dropLast_concat] at hgood hshort hwalk
            have hproper : name ∉ ["", ".", ".."] := by
              have hne := hlast (by simp)
              simp only [List.getLast_concat, beq_iff_eq] at hne
              simp [hne, hgood.1, hgood.2.1]
            refine ⟨parents, name, hnames, hwalk, hproper, hshort, fun hfree => ?_⟩
            rw [place, ← eq_splitOn_of_names hnames] at hfree
            simp [hfree, throw, throwThe, MonadExceptOf.throw] at h

/-- All that a write can do: it puts the file in its place. -/
theorem write_eq_ok_iff {fs' : Files} :
    fs.write path image = .ok fs' ↔ fs.Writable path ∧ fs' = fs.put (fs.place path) image := by
  constructor
  · intro h
    obtain ⟨parents, name, hadmits⟩ := admits_of_write h
    rw [hadmits.write_eq] at h
    exact ⟨⟨parents, name, hadmits⟩, (Except.ok.inj h).symm⟩
  · rintro ⟨⟨parents, name, hadmits⟩, rfl⟩
    exact hadmits.write_eq image

theorem Writable.write_eq (h : fs.Writable path) (image : Image) :
    fs.write path image = .ok (fs.put (fs.place path) image) :=
  write_eq_ok_iff.2 ⟨h, rfl⟩

theorem read_eq_ok_iff :
    fs.read path = .ok image ↔
      ∃ ns, names path = .ok ns ∧ fs.walk (fs.start path) ns = .ok (.file image) := by
  unfold read find
  cases names path with
  | error e => simp [bind, Except.bind]
  | ok ns =>
    simp only [bind, Except.bind, Except.ok.injEq, exists_eq_left']
    cases fs.walk (fs.start path) ns with
    | error e => simp
    | ok entry => cases entry <;> simp [throw, throwThe, MonadExceptOf.throw, pure, Except.pure]

theorem readText_of_read {text : String} (h : fs.read path = .ok text.toUTF8.data) :
    fs.readText path = .ok text := by
  have hdecoded : String.fromUTF8? ⟨text.toUTF8.data⟩ = some text := by
    change (if h : text.toByteArray.IsValidUTF8 then some (String.fromUTF8 text.toByteArray h)
      else none) = some text
    rw [dif_pos text.isValidUTF8]
    rfl
  simp only [readText, h, bind, Except.bind, hdecoded, pure, Except.pure]

theorem Writable.read_put (h : fs.Writable path) (image : Image) :
    (fs.put (fs.place path) image).read path = .ok image := by
  obtain ⟨parents, name, hadmits⟩ := h
  have hdirectory : (fs.put (fs.place path) image).Leads (fs.start path) parents .directory :=
    (leads_of_walk hadmits.walk_eq).put hadmits.free (.inl rfl)
  have hfile : (fs.put (fs.place path) image).Leads (fs.locate (fs.start path) parents) [name]
      (.file image) := by
    refine .file ⟨hadmits.proper, hadmits.short⟩ ?_
    rw [← hadmits.place_eq, entry?_put_self]
  rw [locate_eq fs (fs.put (fs.place path) image)] at hfile
  exact read_eq_ok_iff.2 ⟨_, hadmits.names_eq, (hdirectory.append hfile).walk_eq⟩

/-- A file is what it was after a write that goes to another place. -/
theorem read_put_of_ne (hp : fs.entry? p ≠ some .directory) {content : Image}
    (hread : fs.read path = .ok content) (hne : fs.place path ≠ p) :
    (fs.put p image).read path = .ok content := by
  obtain ⟨ns, hns, hwalk⟩ := read_eq_ok_iff.1 hread
  rw [place, ← eq_splitOn_of_names hns] at hne
  exact read_eq_ok_iff.2 ⟨ns, hns, ((leads_of_walk hwalk).put hp (.inr hne)).walk_eq⟩

/-- What can be written can be written after another write too. -/
theorem Writable.put (h : fs.Writable path) {other : String} (hother : fs.Writable other) :
    (fs.put (fs.place other) image).Writable path := by
  obtain ⟨parents, name, hadmits⟩ := h
  obtain ⟨parents', name', hadmits'⟩ := hother
  have hparents : (fs.put (fs.place other) image).Leads (fs.start path) parents .directory :=
    (leads_of_walk hadmits.walk_eq).put hadmits'.free (.inl rfl)
  refine ⟨parents, name, hadmits.names_eq, hparents.walk_eq, hadmits.proper, hadmits.short,
    fun hdir => ?_⟩
  rw [place_put] at hdir
  have hne : fs.place path ≠ fs.place other := by
    intro heq
    rw [heq, entry?_put_self] at hdir
    simp at hdir
  have hlookup : (fs.put (fs.place other) image).entries.lookup (fs.place path) =
      fs.entries.lookup (fs.place path) := lookup_put_of_ne hne _
  have hbefore : fs.isDirectory (fs.place path) = true := by
    obtain hbefore | ⟨hbelow, -⟩ := isDirectory_put_iff.1 (isDirectory_of_entry hdir)
    · exact hbefore
    · rw [hadmits'.place_eq] at hbelow
      obtain heq | hbelow := List.prefix_concat_iff.1 hbelow
      · exact absurd (heq.trans hadmits'.place_eq.symm) hne
      · exact (leads_of_walk hadmits'.walk_eq).isDirectory_above
          (fun q => isDirectory_of_prefix_start) _ hbelow
  refine hadmits.free ?_
  unfold entry? at hdir ⊢
  rw [hlookup] at hdir
  cases hfound : fs.entries.lookup (fs.place path) with
  | none => simp [hbefore]
  | some found => simp [hfound] at hdir

end
end Mos6502.Files
