import Flowchart.Disk.Tree
import Flowchart.Proofs.Row
import Mathlib.Data.String.Basic

/-!
# Writing a File

A file that was written is there afterwards, behind the path it was written to,
and can be written again. The path is walked anew each time, and the tree has
changed in between; so it has to be shown that the walk to the folder of the
file does not come across the file itself. It cannot, because a file is only
put where there was no folder, and on the way there are nothing but folders.

## Main definitions

* `Disk.Tree.Fits`: A file can be put into a folder under a name.
* `Disk.Tree.IsName`: A path that is one step.

## Theorems

* `foldlM_step_put`: A walk to a folder is the same after a file was put
  somewhere.
* `write_eq_ok_iff`: When a file can be written, and what is left.
* `place_write`, `readText_write`: A written file is found behind its path, and
  its text is read back.
* `write_again`: A written file can be written again.
* `look_of_isName`, `write_of_isName`: Files of the working folder by their
  names.
-/

namespace Flowchart

namespace Disk

/-- A file that holds a text is read as the text. -/
theorem readText_of_file {disk : Disk} {path text : String}
    (h : disk path = .ok (.file text.toUTF8)) : disk.readText path = .ok text := by
  have hvalid : text.toUTF8.IsValidUTF8 := text.isValidUTF8
  have htext : String.fromUTF8? text.toUTF8 = some text := by
    rw [String.fromUTF8?, dif_pos hvalid]
    rfl
  rw [readText, h]
  dsimp only [bind, Except.bind]
  rw [htext]
  rfl

namespace Tree

variable {t : Tree} {way : List String} {bytes : ByteArray}

/-! ## Putting a file somewhere -/

theorem file?_put_self (t : Tree) (way : List String) (bytes : ByteArray) :
    (t.put way bytes).file? way = some bytes :=
  List.lookup_cons_self

theorem lookup_filter_ne {other : List String} (h : other ≠ way)
    (fs : List (List String × ByteArray)) :
    (fs.filter fun (f, _) => f != way).lookup other = fs.lookup other := by
  induction fs with
  | nil => rfl
  | cons f fs ih =>
      rcases f with ⟨key, b⟩
      -- The entry that is left out is not the one that is looked for.
      by_cases hkey : key = way
      · have hne : (other == key) = false := by
          rw [beq_eq_false_iff_ne, hkey]
          exact h
        rw [List.filter_cons_of_neg, ih, List.lookup_cons, hne]
        simp only [hkey, bne_self_eq_false, Bool.false_eq_true, not_false_eq_true]
      · rw [List.filter_cons_of_pos, List.lookup_cons, List.lookup_cons, ih]
        exact bne_iff_ne.mpr hkey

/-- The other files stay. -/
theorem file?_put_of_ne {other : List String} (h : other ≠ way) :
    (t.put way bytes).file? other = t.file? other := by
  have hne : (other == way) = false := beq_eq_false_iff_ne.mpr h
  rw [file?, put, List.lookup_cons, hne]
  exact lookup_filter_ne h t.files

/-- No folder is lost, because the new file stands where an old one may have
    stood. -/
theorem isFolder_put {folder : List String} (h : t.isFolder folder = true) :
    (t.put way bytes).isFolder folder = true := by
  unfold isFolder at h ⊢
  simp only [Bool.or_eq_true, List.any_eq_true, put] at h ⊢
  rcases h with h | ⟨f, hf, hbelow⟩
  · exact Or.inl h
  · refine Or.inr ?_
    by_cases hway : f.1 = way
    · exact ⟨(way, bytes), List.mem_cons_self, by rw [← hway]; exact hbelow⟩
    · exact ⟨f, List.mem_cons_of_mem _ (List.mem_filter.mpr ⟨hf, bne_iff_ne.mpr hway⟩), hbelow⟩

/-- A file makes no folder of the place where it stands. -/
theorem isFolder_put_self (h : t.isFolder way = false) :
    (t.put way bytes).isFolder way = false := by
  unfold isFolder at h ⊢
  simp only [Bool.or_eq_false_iff, List.any_eq_false, put] at h ⊢
  refine ⟨h.1, ?_⟩
  intro f hf
  rcases List.mem_cons.mp hf with rfl | hf
  · simp only [Nat.lt_irrefl, decide_false, Bool.false_and, Bool.false_eq_true, not_false_eq_true]
  · exact h.2 f (List.mem_filter.mp hf).1

/-! ## Walking to a folder -/

theorem child_put (hway : t.isFolder way = false) {folder w : List String} {name : String}
    (h : t.child folder name = .ok (.folder w)) :
    (t.put way bytes).child folder name = .ok (.folder w) := by
  rcases Row.bind_eq_ok_iff.mp h with ⟨_, hname, hplace⟩
  refine Row.bind_eq_ok_iff.mpr ⟨(), hname, ?_⟩
  dsimp only at hplace ⊢
  cases hfile : t.file? (folder ++ [name]) with
  | some b => rw [hfile] at hplace; cases hplace
  | none =>
      rw [hfile] at hplace
      by_cases hfolder : t.isFolder (folder ++ [name]) = true
      · -- A folder is not where the file was put.
        have hne : folder ++ [name] ≠ way := by
          intro heq
          rw [heq, hway] at hfolder
          cases hfolder
        rw [file?_put_of_ne hne, hfile, isFolder_put hfolder]
        dsimp only at hplace ⊢
        rw [if_pos hfolder] at hplace
        exact hplace
      · dsimp only at hplace
        rw [if_neg hfolder] at hplace
        cases hplace

theorem step_put (hway : t.isFolder way = false) {p : Place} {name : String} {w : List String}
    (h : t.step p name = .ok (.folder w)) : (t.put way bytes).step p name = .ok (.folder w) := by
  cases p with
  | file b => cases h
  | folder folder =>
      unfold step at h ⊢
      dsimp only at h ⊢
      -- A step stays, goes up, or goes down, and only the last one looks at the files.
      split at h
      · rename_i hstay
        rw [if_pos hstay]
        exact h
      · rename_i hstay
        rw [if_neg hstay]
        split at h
        · rename_i hup
          rw [if_pos hup]
          exact h
        · rename_i hup
          rw [if_neg hup]
          exact child_put hway h

/-- A file ends a walk. -/
theorem foldlM_step_file (steps : List String) (b : ByteArray) (w : List String) :
    steps.foldlM t.step (.file b) ≠ .ok (.folder w) := by
  cases steps with
  | nil => exact fun h => by cases h
  | cons s steps => exact fun h => by cases h

/-- A walk to a folder is the same after a file was put somewhere. -/
theorem foldlM_step_put (hway : t.isFolder way = false) {steps : List String} {p : Place}
    {w : List String} (h : steps.foldlM t.step p = .ok (.folder w)) :
    steps.foldlM (t.put way bytes).step p = .ok (.folder w) := by
  induction steps generalizing p with
  | nil => exact h
  | cons s steps ih =>
      rw [List.foldlM_cons] at h ⊢
      rcases Row.bind_eq_ok_iff.mp h with ⟨q, hq, hrest⟩
      cases q with
      | file b => exact absurd hrest (foldlM_step_file steps b w)
      | folder v => exact Row.bind_eq_ok_iff.mpr ⟨.folder v, step_put hway hq, ih hrest⟩

/-! ## Writing -/

/-- A file can be put into a folder under a name that is one, where there is no
    folder of that name. -/
structure Fits (t : Tree) (folder : List String) (name : String) : Prop where
  named : name ∉ ["", ".", ".."]
  short : checkName name = .ok ()
  free : t.isFolder (folder ++ [name]) = false

theorem putIn_eq_ok_iff {name : String} {p : Place} {t' : Tree} :
    t.putIn bytes name p = .ok t' ↔
      ∃ folder, p = .folder folder ∧ t.Fits folder name ∧ t' = t.put (folder ++ [name]) bytes := by
  cases p with
  | file b =>
      constructor
      · exact fun h => by cases h
      · rintro ⟨folder, hp, _⟩
        cases hp
  | folder folder =>
      unfold putIn
      simp only [bind, Except.bind, pure, Except.pure]
      constructor
      · intro h
        -- Each of the three guards stands for one thing that fits.
        split at h
        · cases h
        · rename_i hnamed
          split at h
          · cases h
          · rename_i hshort
            split at h
            · cases h
            · rename_i hfree
              rw [Bool.not_eq_true] at hfree
              exact ⟨folder, rfl, ⟨hnamed, hshort, hfree⟩, (Except.ok.inj h).symm⟩
      · rintro ⟨folder', hp, hfits, rfl⟩
        cases hp
        have hfree : ¬t.isFolder (folder ++ [name]) = true := by
          rw [hfits.free]
          exact Bool.false_ne_true
        rw [if_neg hfits.named, hfits.short, if_neg hfree]

/-- When a file can be written, and what is left. -/
theorem write_eq_ok_iff {path : String} {t' : Tree} :
    t.write path bytes = .ok t' ↔
      checkPath path = .ok () ∧ ∃ folder,
        (target path).1.foldlM t.step (start path) = .ok (.folder folder) ∧
          t.Fits folder (target path).2 ∧ t' = t.put (folder ++ [(target path).2]) bytes := by
  unfold write
  rw [Row.bind_eq_ok_iff]
  constructor
  · rintro ⟨_, hpath, h⟩
    -- The folders are walked first, and the file is put behind them.
    rcases Row.bind_eq_ok_iff.mp h with ⟨p, hp, hput⟩
    rcases putIn_eq_ok_iff.mp hput with ⟨folder, rfl, hfits, ht'⟩
    exact ⟨hpath, folder, hp, hfits, ht'⟩
  · rintro ⟨hpath, folder, hp, hfits, ht'⟩
    exact ⟨(), hpath, Row.bind_eq_ok_iff.mpr
      ⟨.folder folder, hp, putIn_eq_ok_iff.mpr ⟨folder, rfl, hfits, ht'⟩⟩⟩

/-- A path that ends in a name has the steps to the folder before it. -/
theorem steps_eq_target {path : String} (h : (target path).2 ≠ "") :
    steps path = (target path).1 ++ [(target path).2] := by
  unfold target at h ⊢
  dsimp only at h ⊢
  generalize steps path = ss at h ⊢
  by_cases hshort : (ss.reverse.dropWhile (· == "")).reverse.length < ss.length
  · rw [if_pos hshort] at h
    exact absurd rfl h
  · rw [if_neg hshort] at h ⊢
    -- Nothing was dropped, so the last step is the name.
    have hall : (ss.reverse.dropWhile (· == "")).reverse = ss := by
      have hsuffix := List.dropWhile_suffix (· == "") (l := ss.reverse)
      rw [List.length_reverse, Nat.not_lt] at hshort
      rw [hsuffix.eq_of_length_le (by rw [List.length_reverse]; exact hshort), List.reverse_reverse]
    rw [hall] at h ⊢
    have hne : ss ≠ [] := by
      intro hnil
      rw [hnil] at h
      exact h rfl
    rw [List.getLastD_eq_getLast?, List.getLast?_eq_getLast_of_ne_nil hne, Option.getD_some,
      List.dropLast_append_getLast]

/-- A step with a name of its own leads to what has that name. -/
theorem step_eq_child {name : String} (h : name ∉ ["", ".", ".."]) (way : List String) :
    t.step (.folder way) name = t.child way name := by
  simp only [List.mem_cons, List.not_mem_nil, or_false, not_or] at h
  have hstay : name ∉ ["", "."] := by
    simp only [List.mem_cons, List.not_mem_nil, or_false, not_or]
    exact ⟨h.1, h.2.1⟩
  rw [step, if_neg hstay, if_neg h.2.2]

/-- A written file is found behind its path. -/
theorem place_write {path : String} {t' : Tree} (h : t.write path bytes = .ok t') :
    t'.place path = .ok (.file bytes) := by
  rcases write_eq_ok_iff.mp h with ⟨hpath, folder, hwalk, hfits, rfl⟩
  have hne : (target path).2 ≠ "" := fun heq => hfits.named (by rw [heq]; exact List.mem_cons_self)
  refine Row.bind_eq_ok_iff.mpr ⟨(), hpath, ?_⟩
  rw [steps_eq_target hne, List.foldlM_append]
  refine Row.bind_eq_ok_iff.mpr ⟨.folder folder, foldlM_step_put hfits.free hwalk, ?_⟩
  -- The walk goes on as before, and its last step finds the file.
  have hchild : (t.put (folder ++ [(target path).2]) bytes).child folder (target path).2 =
      .ok (.file bytes) := by
    refine Row.bind_eq_ok_iff.mpr ⟨(), hfits.short, ?_⟩
    dsimp only
    rw [file?_put_self]
  rw [List.foldlM_cons, step_eq_child hfits.named, hchild]
  rfl

/-- A text that was written is read back. -/
theorem readText_write {path text : String} {t' : Tree}
    (h : t.write path text.toUTF8 = .ok t') : t'.look.readText path = .ok text := by
  refine readText_of_file ?_
  rw [look, place_write h]
  rfl

/-- A written file can be written again. -/
theorem write_again {path : String} {t' : Tree} (h : t.write path bytes = .ok t')
    (bytes' : ByteArray) : ∃ t'', t'.write path bytes' = .ok t'' := by
  rcases write_eq_ok_iff.mp h with ⟨hpath, folder, hwalk, hfits, rfl⟩
  exact ⟨_, write_eq_ok_iff.mpr ⟨hpath, folder, foldlM_step_put hfits.free hwalk,
    ⟨hfits.named, hfits.short, isFolder_put_self hfits.free⟩, rfl⟩⟩

/-! ## Names -/

/-- A step that is taken as it is, and not too long to be looked up. -/
def IsName (name : String) : Prop :=
  name ∉ ["", ".", ".."] ∧ '/' ∉ name.toList ∧ '\x00' ∉ name.toList ∧ name.utf8ByteSize ≤ nameLimit

instance (name : String) : Decidable (IsName name) := inferInstanceAs (Decidable (_ ∧ _ ∧ _ ∧ _))

/-- A text is not cut where there is no slash. The induction is on what has not
    been looked at yet. -/
theorem splitOnAux_of_not_mem (l r : List Char) (h : '/' ∉ r) :
    String.splitOnAux (String.ofList (l ++ r)) "/" 0 ⟨String.utf8Len l⟩ 0 [] =
      [String.ofList (l ++ r)] := by
  induction r generalizing l with
  | nil =>
      have hend : String.Pos.Raw.atEnd (String.ofList (l ++ [])) ⟨String.utf8Len l⟩ = true :=
        (String.atEnd_of_valid l []).mpr rfl
      have hwhole := String.extract_of_valid [] l []
      rw [String.utf8Len_nil, Nat.zero_add, List.nil_append] at hwhole
      have hzero : (0 : String.Pos.Raw) = ⟨0⟩ := rfl
      rw [String.splitOnAux, if_pos hend, hzero, hwhole, List.append_nil]
      rfl
  | cons c r ih =>
      rw [List.mem_cons, not_or] at h
      have hend : ¬String.Pos.Raw.atEnd (String.ofList (l ++ c :: r)) ⟨String.utf8Len l⟩ = true :=
        fun hend => List.cons_ne_nil c r ((String.atEnd_of_valid l (c :: r)).mp hend)
      -- The next character is no slash, and so it joins what was looked at.
      have hget := String.get_of_valid l (c :: r)
      have hnext := String.next_of_valid l c r
      have hslash : ¬(c == String.Pos.Raw.get "/" 0) = true := by
        rw [beq_iff_eq]
        exact fun heq => h.1 heq.symm
      have hstay : (⟨String.utf8Len l⟩ : String.Pos.Raw).unoffsetBy 0 = ⟨String.utf8Len l⟩ := rfl
      have hrest := ih (l ++ [c]) h.2
      rw [List.append_assoc, List.singleton_append, String.utf8Len_append, String.utf8Len_cons,
        String.utf8Len_nil, Nat.zero_add] at hrest
      rw [String.splitOnAux, if_neg hend, hget, List.headD_cons, if_neg hslash, hstay, hnext]
      exact hrest

theorem steps_of_not_mem {name : String} (h : '/' ∉ name.toList) : steps name = [name] := by
  have hsplit := splitOnAux_of_not_mem [] name.toList h
  rw [List.nil_append, String.ofList_toList] at hsplit
  have hsep : ¬("/" == "") = true := by decide
  rw [steps, String.splitOn, if_neg hsep]
  exact hsplit

theorem checkPath_of_isName {name : String} (h : IsName name) : checkPath name = .ok () := by
  rcases h with ⟨hnamed, _, hnul, hshort⟩
  have hempty : ¬name.isEmpty = true := by
    rw [String.isEmpty_iff]
    exact fun heq => hnamed (by rw [heq]; exact List.mem_cons_self)
  have hcontains : ¬name.contains '\x00' = true := by
    rw [String.contains_char_eq, decide_eq_true_eq]
    exact hnul
  have hlong : ¬pathLimit < name.utf8ByteSize := by
    unfold nameLimit at hshort
    unfold pathLimit
    omega
  rw [checkPath, if_neg hempty, if_neg hcontains, if_neg hlong]

/-- A name is not a path from the root. -/
theorem start_of_isName {name : String} (h : IsName name) : start name = .folder [] := by
  have hroot : ¬name.startsWith "/" = true := by
    rw [String.startsWith_string_iff]
    exact fun habsolute => h.2.1 (habsolute.subset List.mem_cons_self)
  rw [start, if_neg hroot]

theorem checkName_of_isName {name : String} (h : IsName name) : checkName name = .ok () := by
  rw [checkName, if_neg (Nat.not_lt.mpr h.2.2.2)]

/-- A file of the working folder is found by its name. -/
theorem look_of_isName {name : String} (h : IsName name) (hfile : t.file? [name] = some bytes) :
    t.look name = .ok (.file bytes) := by
  have hchild : t.child [] name = .ok (.file bytes) := by
    refine Row.bind_eq_ok_iff.mpr ⟨(), checkName_of_isName h, ?_⟩
    dsimp only
    rw [List.nil_append, hfile]
  have hplace : t.place name = .ok (.file bytes) := by
    refine Row.bind_eq_ok_iff.mpr ⟨(), checkPath_of_isName h, ?_⟩
    rw [steps_of_not_mem h.2.1, start_of_isName h, List.foldlM_cons, step_eq_child h.1, hchild]
    rfl
  rw [look, hplace]
  rfl

/-- A text in the working folder is read by its name. -/
theorem readText_of_isName {name text : String} (h : IsName name)
    (hfile : t.file? [name] = some text.toUTF8) : t.look.readText name = .ok text :=
  readText_of_file (look_of_isName h hfile)

/-- A file can be put into the working folder under a name that is no folder
    there. -/
theorem write_of_isName {name : String} (h : IsName name) (hfree : t.isFolder [name] = false) :
    t.write name bytes = .ok (t.put [name] bytes) := by
  have htarget : target name = ([], name) := by
    have hne : (name == "") = false := by
      rw [beq_eq_false_iff_ne]
      exact fun heq => h.1 (by rw [heq]; exact List.mem_cons_self)
    rw [target, steps_of_not_mem h.2.1]
    simp only [List.reverse_singleton, List.dropWhile_cons, hne, Bool.false_eq_true, if_false,
      Nat.lt_irrefl, List.dropLast_singleton, List.getLastD_cons, List.getLastD_nil]
  rw [write_eq_ok_iff, htarget]
  exact ⟨checkPath_of_isName h, [], by rw [start_of_isName h]; rfl,
    ⟨h.1, checkName_of_isName h, hfree⟩, rfl⟩

end Tree

end Disk

end Flowchart
