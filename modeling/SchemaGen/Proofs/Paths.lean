import SchemaGen.FileTree
import SchemaGen.Proofs.Outcome
import SchemaGen.Proofs.Dotted
/-!
# Where paths lead

Of the segments of a path only those that move count, provided that the last one does. So a path leads to the same
place however it is spelled, and a name under a directory leads from where the directory is to where the name says.
-/
namespace SchemaGen
open Text

namespace Path
variable {path segment name directory : String}

def moves (segment : String) : Bool :=
  (part? segment).isSome

def steps (path : String) : List String :=
  (segments path).filter moves

/-- The last segment of a path moves, as it must where the path leads to a file. -/
def Arrives (path : String) : Prop :=
  ∀ last ∈ (segments path).getLast?, moves last

def Proper (name : String) : Prop :=
  name ∉ ["", ".", ".."] ∧ '/' ∉ name.toList

instance (name : String) : Decidable (Proper name) :=
  inferInstanceAs (Decidable (_ ∧ _))

theorem part?_cases (segment : String) :
    part? segment = none ∨ (segment = ".." ∧ part? segment = some .up) ∨ part? segment = some (.name segment) := by
  unfold part?
  split <;> simp

theorem Proper.part? (h : Proper name) : Path.part? name = some (.name name) := by
  have fixed := h.1
  unfold Path.part?
  split <;> simp_all

theorem proper_of_part? (h : part? name = some (.name name)) (free : '/' ∉ name.toList) : Proper name := by
  refine ⟨?_, free⟩
  intro fixed
  simp only [List.mem_cons, List.not_mem_nil, or_false] at fixed
  rcases fixed with rfl | rfl | rfl <;> cases h

theorem text?_of_part? {part : Part} (h : part? segment = some part) : part.text? = some segment := by
  rcases part?_cases segment with none | ⟨rfl, up⟩ | named
  · rw [none] at h
    cases h
  · rw [up] at h
    cases h
    rfl
  · rw [named] at h
    cases h
    rfl

section segments

theorem segments_ne_nil (path : String) : segments path ≠ [] := by
  simp [segments, piecesOf_ne_nil]

theorem slash_notMem_of_mem_segments (h : segment ∈ segments path) : '/' ∉ segment.toList := by
  obtain ⟨piece, hp, rfl⟩ := List.mem_map.mp h
  rw [String.toList_ofList]
  exact notMem_of_mem_piecesOf hp

theorem of_mem_steps (h : segment ∈ steps path) : moves segment ∧ '/' ∉ segment.toList := by
  obtain ⟨listed, moved⟩ := List.mem_filter.mp h
  exact ⟨moved, slash_notMem_of_mem_segments listed⟩

theorem steps_ne_nil (arrives : Arrives path) : steps path ≠ [] := by
  intro none
  have last := List.getLast?_eq_some_getLast (segments_ne_nil path)
  exact List.filter_eq_nil_iff.mp none _ (List.mem_of_getLast? last) (arrives _ last)

theorem joinWith_segments (path : String) : joinWith "/" (segments path) = path :=
  joinWith_piecesOf '/' path

theorem segments_joinWith {names : List String} (nonempty : names ≠ []) (free : ∀ name ∈ names, '/' ∉ name.toList) :
    segments (joinWith "/" names) = names := by
  have pieces : piecesOf '/' (joinWith "/" names).toList = names.map String.toList := piecesOf_joinWith nonempty free
  rw [segments, pieces, List.map_map]
  simp [Function.comp_def]

theorem segments_append (a b : String) : segments (a ++ "/" ++ b) = segments a ++ segments b := by
  have joined : a ++ "/" ++ b = joinWith "/" (segments a ++ segments b) := by
    rw [joinWith_append "/" (segments_ne_nil a) (segments_ne_nil b), joinWith_segments, joinWith_segments]
  rw [joined, segments_joinWith (by simp [segments_ne_nil])]
  intro segment h
  rcases List.mem_append.mp h with h | h
  · exact slash_notMem_of_mem_segments h
  · exact slash_notMem_of_mem_segments h

end segments

section join

theorem isAbsolute_append {a : String} (nonempty : a ≠ "") (b : String) : isAbsolute (a ++ b) = isAbsolute a := by
  unfold isAbsolute
  cases chars : a.toList with
  | nil => exact absurd (String.toList_eq_nil_iff.mp chars) nonempty
  | cons c cs => simp [chars]

theorem isAbsolute_joinWith {names : List String} (proper : ∀ name ∈ names, name ≠ "" ∧ '/' ∉ name.toList) :
    isAbsolute (joinWith "/" names) = false := by
  cases names with
  | nil => rfl
  | cons name names =>
    obtain ⟨nonempty, free⟩ := proper name List.mem_cons_self
    rw [joinWith_cons, isAbsolute_append nonempty, isAbsolute, beq_eq_false_iff_ne]
    intro slash
    exact free (List.mem_of_mem_head? slash)

variable (nonempty : directory ≠ "") (relative : isAbsolute name = false)
include nonempty relative

theorem isAbsolute_join : isAbsolute (join directory name) = isAbsolute directory := by
  unfold join
  simp only [relative, Bool.false_or, beq_iff_eq, nonempty, if_false]
  split
  · exact isAbsolute_append nonempty name
  · rw [String.append_assoc]
    exact isAbsolute_append nonempty _

/-- The segments of a name under a directory are those of the directory, up to an empty one, and those of the name. -/
theorem segments_join :
    ∃ front, segments (join directory name) = front ++ segments name ∧
      (front.filter moves) = steps directory := by
  unfold join
  simp only [relative, Bool.false_or, beq_iff_eq, nonempty, if_false]
  split
  · rename_i slash
    obtain ⟨cs, chars⟩ := List.getLast?_eq_some_iff.mp slash
    have cut : directory = .ofList cs ++ "/" ++ "" := by
      rw [← String.toList_inj]
      simp [chars]
    refine ⟨segments (.ofList cs), ?_, ?_⟩
    · rw [← segments_append, cut]
      simp
    · rw [cut, steps, segments_append, List.filter_append]
      have last : ((segments "").filter moves) = [] := by decide
      rw [last, List.append_nil]
  · exact ⟨segments directory, segments_append directory name, rfl⟩

theorem steps_join : steps (join directory name) = steps directory ++ steps name := by
  obtain ⟨front, cut, same⟩ := segments_join nonempty relative
  rw [steps, cut, List.filter_append, same, steps, steps]

theorem arrives_join : Arrives (join directory name) ↔ Arrives name := by
  obtain ⟨front, cut, _⟩ := segments_join nonempty relative
  rw [Arrives, Arrives, cut, List.getLast?_append_of_ne_nil front (segments_ne_nil name)]

end join

section parts

/-- The parts of a path besides its moves: a slash or a dot at its start. -/
theorem parts_eq (path : String) :
    ∃ lead, parts path = lead ++ (segments path).filterMap part? ∧ lead.length ≤ 1 ∧ lead.filterMap Part.text? = [] ∧
      (isAbsolute path = true ↔ lead = [.root]) := by
  unfold parts
  dsimp only
  split
  · rename_i absolute
    exact ⟨[.root], rfl, Nat.le_refl 1, rfl, by simp [absolute]⟩
  · rename_i relative
    split
    · exact ⟨[.here], rfl, Nat.le_refl 1, rfl, by simp [relative]⟩
    · exact ⟨[], rfl, Nat.zero_le 1, rfl, by simp [relative]⟩

theorem filterMap_text?_moves (segments : List String) :
    (segments.filterMap part?).filterMap Part.text? = segments.filter moves := by
  induction segments with
  | nil => rfl
  | cons segment segments ih =>
    cases moved : part? segment with
    | none => simpa [moves, moved] using ih
    | some part => simpa [moves, moved, text?_of_part? moved] using ih

theorem texts_parts (path : String) : (parts path).filterMap Part.text? = steps path := by
  obtain ⟨lead, cut, _, silent, _⟩ := parts_eq path
  rw [cut, List.filterMap_append, silent, List.nil_append, filterMap_text?_moves, steps]

theorem text?_of_mem_moves {part : Part} (h : part ∈ (segments path).filterMap part?) : part.text?.isSome := by
  obtain ⟨segment, _, moved⟩ := List.mem_filterMap.mp h
  rw [text?_of_part? moved]
  rfl

theorem text?_of_mem_tail {part : Part} (h : part ∈ (parts path).tail) : part.text?.isSome := by
  obtain ⟨lead, cut, short, _⟩ := parts_eq path
  rw [cut] at h
  cases lead with
  | nil => exact text?_of_mem_moves (List.mem_of_mem_tail h)
  | cons first rest =>
    obtain rfl : rest = [] := by simpa using short
    exact text?_of_mem_moves h

theorem head?_parts (path : String) : (parts path).head? = some .root ↔ isAbsolute path = true := by
  obtain ⟨lead, cut, short, silent, absolute⟩ := parts_eq path
  rw [absolute, cut]
  cases lead with
  | nil =>
    simp only [List.nil_append, List.nil_eq, reduceCtorEq, iff_false]
    intro first
    cases text?_of_mem_moves (List.mem_of_mem_head? first)
  | cons first rest =>
    obtain rfl : rest = [] := by simpa using short
    simp

theorem eq_of_part?_eq_none (h : part? segment = none) : segment = "" ∨ segment = "." := by
  unfold part? at h
  split at h <;> simp_all

theorem parts_ne_nil (nonempty : path ≠ "") : parts path ≠ [] := by
  intro none
  unfold parts at none
  dsimp only at none
  split at none
  · cases none
  · rename_i relative
    split at none
    · cases none
    · rename_i notDot
      -- A first segment that is empty stands before a slash, unless it is all of the path.
      have whole := joinWith_segments path
      cases cut : segments path with
      | nil => exact segments_ne_nil path cut
      | cons first rest =>
        rw [cut] at none notDot whole
        have still := List.filterMap_eq_nil_iff.mp none first List.mem_cons_self
        rcases eq_of_part?_eq_none still with rfl | rfl
        · cases rest with
          | nil => exact nonempty whole.symm
          | cons next rest =>
            rw [joinWith_cons, List.map_cons, joinWith_cons] at whole
            exact relative (by rw [← whole]; simp [isAbsolute])
        · exact notDot rfl

end parts

theorem steps_plain {ps : List Part} (nonempty : ps.filterMap Part.text? ≠ [])
    (each : ∀ segment ∈ ps.filterMap Part.text?, moves segment ∧ '/' ∉ segment.toList) :
    steps (plain ps) = ps.filterMap Part.text? ∧ Arrives (plain ps) ∧
      (isAbsolute (plain ps) = true ↔ ps.head? = some .root) := by
  unfold plain
  generalize ps.filterMap Part.text? = names at nonempty each
  have free : ∀ name ∈ names, '/' ∉ name.toList := fun name h => (each name h).2
  have all : (names.filter moves) = names :=
    List.filter_eq_self.mpr fun name h => (each name h).1
  have arrives : ∀ last ∈ names.getLast?, moves last := fun last h => (each last (List.mem_of_getLast? h)).1
  split
  · rename_i root
    have cut : segments ("/" ++ joinWith "/" names) = "" :: names := by
      have split := segments_append "" (joinWith "/" names)
      rw [segments_joinWith nonempty free] at split
      exact split
    refine ⟨?_, ?_, ?_⟩
    · rw [steps, cut, List.filter_cons, all]
      rfl
    · rw [Arrives, cut, List.getLast?_cons_of_ne_nil nonempty]
      exact arrives
    · rw [isAbsolute_append (by decide), beq_iff_eq.mp root]
      exact iff_of_true rfl rfl
  · rename_i notRoot
    have cut : segments ("" ++ joinWith "/" names) = names := by
      rw [String.empty_append, segments_joinWith nonempty free]
    refine ⟨?_, ?_, ?_⟩
    · rw [steps, cut, all]
    · rw [Arrives, cut]
      exact arrives
    · rw [String.empty_append, isAbsolute_joinWith]
      · simpa using notRoot
      · intro name h
        refine ⟨?_, free name h⟩
        rintro rfl
        exact Bool.false_ne_true (each "" h).1

end Path

namespace FileTree
open SchemaGen.Path
variable {t : FileTree} {l place : Location} {segment path : String} {segments : List String}

theorem follow_of_not_directory (h : ¬ t.isDirectoryAt l) (segment : String) (rest : List String) :
    t.follow l (segment :: rest) = .error .notDirectory := by
  rw [follow, if_pos (by simpa using h)]

theorem follow_still (directory : t.isDirectoryAt l) (still : ¬ moves segment) (rest : List String) :
    t.follow l (segment :: rest) = t.follow l rest := by
  have none : part? segment = none := by simpa [moves] using still
  rw [follow, if_neg (by simpa using directory), none]

theorem follow_append (l : Location) (front rest : List String) :
    t.follow l (front ++ rest) = t.follow l front >>= fun place => t.follow place rest := by
  induction front generalizing l with
  | nil => rfl
  | cons segment front ih =>
    rw [List.cons_append, follow, follow]
    split
    · rfl
    · split
      · exact ih _
      · split
        · exact ih _
        · rfl
      · exact ih _

theorem follow_cons (l : Location) (segment : String) (rest : List String) :
    t.follow l (segment :: rest) = t.follow l [segment] >>= fun place => t.follow place rest :=
  follow_append l [segment] rest

theorem follow_filter (l : Location) (ends : ∀ last ∈ segments.getLast?, moves last) :
    t.follow l segments = t.follow l (segments.filter moves) := by
  induction segments generalizing l with
  | nil => rfl
  | cons segment rest ih =>
    have later : ∀ last ∈ rest.getLast?, moves last := fun last h => ends last (List.mem_getLast?_cons h)
    by_cases moved : moves segment
    · rw [List.filter_cons_of_pos moved, follow_cons, follow_cons l segment (rest.filter moves)]
      exact congrArg _ (funext fun place => ih place later)
    · rw [List.filter_cons_of_neg moved, ← ih l later]
      by_cases directory : t.isDirectoryAt l
      · exact follow_still directory moved rest
      · cases rest with
        | nil => exact absurd (ends segment rfl) moved
        | cons next rest => rw [follow_of_not_directory directory, follow_of_not_directory directory]

theorem follow_cons_ok {rest : List String} (h : t.follow l (segment :: rest) = .ok place) :
    t.isDirectoryAt l ∧ ((¬ moves segment ∧ t.follow l rest = .ok place) ∨
      (segment = ".." ∧ t.follow l.dropLast rest = .ok place) ∨
      (part? segment = some (.name segment) ∧ (t.node? (l ++ [segment])).isSome ∧
        t.follow (l ++ [segment]) rest = .ok place)) := by
  rw [follow] at h
  split at h
  · cases h
  · rename_i directory
    refine ⟨by simpa using directory, ?_⟩
    rcases part?_cases segment with still | ⟨rfl, up⟩ | named
    · rw [still] at h
      exact .inl ⟨by simp [moves, still], h⟩
    · rw [up] at h
      exact .inr (.inl ⟨rfl, h⟩)
    · rw [named] at h
      dsimp only at h
      split at h
      · rename_i present
        exact .inr (.inr ⟨named, present, h⟩)
      · cases h

/-- What is reached with all segments is reached with those that move. -/
theorem follow_filter_of_ok (h : t.follow l segments = .ok place) : t.follow l (segments.filter moves) = .ok place := by
  induction segments generalizing l with
  | nil => exact h
  | cons segment rest ih =>
    by_cases moved : moves segment
    · rw [follow_cons] at h
      obtain ⟨mid, first, h⟩ := except_bind_ok.mp h
      rw [List.filter_cons_of_pos moved, follow_cons, except_bind_ok]
      exact ⟨mid, first, ih h⟩
    · rw [follow_still (follow_cons_ok h).1 moved] at h
      rw [List.filter_cons_of_neg moved]
      exact ih h

theorem isDirectoryAt_of_follow {front : List String} (still : ¬ moves segment)
    (h : t.follow l (front ++ [segment]) = .ok place) : t.isDirectoryAt place := by
  rw [follow_append] at h
  obtain ⟨mid, _, last⟩ := except_bind_ok.mp h
  have directory := (follow_cons_ok last).1
  rw [follow_still directory still] at last
  cases last
  exact directory

/-- The names of a place are proper, and what is around it are directories. -/
structure Settled (t : FileTree) (l : Location) : Prop where
  around : ∀ outer, outer <+: l → outer ≠ l → t.isDirectoryAt outer
  names : ∀ name ∈ l, Proper name

theorem isDirectoryAt_of_prefix_here (h : l <+: t.here) : t.isDirectoryAt l := by
  simp [isDirectoryAt, node?, h]

theorem settled_of_prefix_here (proper : ∀ name ∈ t.here, Proper name) (h : l <+: t.here) : t.Settled l where
  around _ hl _ := isDirectoryAt_of_prefix_here (hl.trans h)
  names name hn := proper name (h.subset hn)

theorem Settled.dropLast (h : t.Settled l) : t.Settled l.dropLast where
  around outer hl other := by
    refine h.around outer (hl.trans l.dropLast_prefix) ?_
    rintro rfl
    exact other (hl.eq_of_length_le (by simp))
  names name hn := h.names name (List.dropLast_subset l hn)

theorem Settled.concat (h : t.Settled l) (directory : t.isDirectoryAt l) {name : String} (proper : Proper name) :
    t.Settled (l ++ [name]) where
  around outer hl other := by
    rcases List.prefix_concat_iff.mp hl with whole | inner
    · exact absurd whole other
    · by_cases same : outer = l
      · rw [same]
        exact directory
      · exact h.around outer inner same
  names := by
    intro other ho
    rcases List.mem_append.mp ho with ho | ho
    · exact h.names other ho
    · rw [List.mem_singleton.mp ho]
      exact proper

theorem Settled.follow (h : t.Settled l) (free : ∀ segment ∈ segments, '/' ∉ segment.toList)
    (followed : t.follow l segments = .ok place) : t.Settled place := by
  induction segments generalizing l with
  | nil =>
    cases followed
    exact h
  | cons segment rest ih =>
    have freeRest : ∀ segment ∈ rest, '/' ∉ segment.toList := fun segment hs => free segment (by simp [hs])
    obtain ⟨directory, ⟨_, next⟩ | ⟨_, next⟩ | ⟨named, _, next⟩⟩ := follow_cons_ok followed
    · exact ih h freeRest next
    · exact ih h.dropLast freeRest next
    · exact ih (h.concat directory (proper_of_part? named (free segment (by simp)))) freeRest next

theorem Settled.follow_names {base : Location} {names : List String} (h : t.Settled (base ++ names))
    (present : (t.node? (base ++ names)).isSome) : t.follow base names = .ok (base ++ names) := by
  induction names generalizing base with
  | nil => rw [FileTree.follow, List.append_nil]
  | cons name names ih =>
    have directory : t.isDirectoryAt base := h.around base (List.prefix_append _ _) (by simp)
    have named := (h.names name (by simp)).part?
    have next : base ++ name :: names = base ++ [name] ++ names := by simp
    rw [next] at h present ⊢
    have there : (t.node? (base ++ [name])).isSome := by
      by_cases last : names = []
      · simpa [last] using present
      · have inner := h.around (base ++ [name]) (List.prefix_append _ _) (by simpa using last)
        rw [isDirectoryAt, beq_iff_eq] at inner
        rw [inner]
        rfl
    rw [FileTree.follow, if_neg (by simpa using directory), named]
    dsimp only
    rw [if_pos there]
    exact ih h present

section locate

theorem settled_of_locate (proper : ∀ name ∈ t.here, Proper name) (h : t.locate path = .ok place) :
    t.Settled place := by
  unfold locate at h
  split at h
  · cases h
  · refine Settled.follow ?_ (fun _ hs => slash_notMem_of_mem_segments hs) h
    refine settled_of_prefix_here proper ?_
    unfold start
    split
    · exact List.nil_prefix
    · exact List.prefix_refl _

theorem locate_eq (arrives : Arrives path) : t.locate path = t.follow (t.start path) (steps path) := by
  have nonempty : path ≠ "" := by
    rintro rfl
    exact absurd (arrives "" rfl) (by decide)
  rw [locate, if_neg (by simpa using nonempty), follow_filter _ arrives, steps]

theorem follow_steps_of_locate (h : t.locate path = .ok place) :
    t.follow (t.start path) (steps path) = .ok place := by
  unfold locate at h
  split at h
  · cases h
  · exact follow_filter_of_ok h

/-- Two spellings with the same moves lead to the same place. -/
theorem locate_congr {other : String} (arrives : Arrives path) (arrives' : Arrives other)
    (absolute : isAbsolute path = isAbsolute other) (same : steps path = steps other) :
    t.locate path = t.locate other := by
  rw [locate_eq arrives, locate_eq arrives', start, start, absolute, same]

theorem read_eq_ok {content : Content} :
    t.read path = .ok content ↔ ∃ l, t.locate path = .ok l ∧ t.node? l = some (.file content) := by
  unfold read
  rw [except_bind_ok]
  refine exists_congr fun l => and_congr_right fun _ => ?_
  split
  · rename_i found
    simp [found]
  · rename_i found
    simp [found]
  · rename_i none
    simp [none]

theorem isFile_iff : t.isFile path ↔ ∃ content, t.read path = .ok content := by
  unfold isFile
  cases t.read path <;> simp [Except.isOk, Except.toBool]

theorem arrives_of_isFile (h : t.isFile path) : Arrives path := by
  obtain ⟨content, read⟩ := isFile_iff.mp h
  obtain ⟨l, located, found⟩ := read_eq_ok.mp read
  intro last ends
  by_contra still
  unfold locate at located
  split at located
  · cases located
  · obtain ⟨front, cut⟩ := List.getLast?_eq_some_iff.mp ends
    rw [cut] at located
    have directory := isDirectoryAt_of_follow still located
    rw [isDirectoryAt, found] at directory
    cases directory

theorem readText_eq_ok {text : String} : t.readText path = .ok text ↔ t.read path = .ok (.text text) := by
  unfold readText
  rw [except_bind_ok]
  constructor
  · rintro ⟨content, read, h⟩
    cases content with
    | text other =>
      cases h
      exact read
    | binary bytes => cases h
  · intro read
    exact ⟨_, read, rfl⟩

/-- What is read at a path depends only on the place that it leads to. -/
theorem read_congr {other : String} (h : t.locate path = t.locate other) : t.read path = t.read other := by
  rw [read, read, h]

end locate

end FileTree

end SchemaGen
