import FeelBetter.Firebase
import FeelBetter.Machine.Runs

/-!
# The cells of the memory table

`tableView(_:cellForRowAt:)` dequeues a cell object that is in use nowhere,
with whatever it last showed, and starts to fetch the memory of the row. The
fetch writes into the cell object, wherever that has moved by then. So a row may
show and open the memory of another row.
-/

namespace FeelBetter

open Machine

/-- A cell object, with the texts of its labels. The date label is known by the instant
it stands for, the image view by the address it was told to show. -/
structure MemoryTableViewCell where
  memory : Option CloudMemory
  memoryCellTitle : String
  memoryCellEmoji : String
  memoryCellText : String
  memoryCellDate : Option Date
  memoryCellImageURL : Option URL
  /-- The labels belong to the memory. -/
  labels_eq : ∀ m ∈ memory, memoryCellTitle = m.title ∧
    memoryCellEmoji = sentimentEmoji m.sentiment ∧ memoryCellText = m.content ∧
    memoryCellDate = some m.saveDate ∧ memoryCellImageURL = m.imageURL

namespace MemoryTableViewCell

/-- A cell as the storyboard makes it. -/
def new : MemoryTableViewCell where
  memory := none
  memoryCellTitle := "title"
  memoryCellEmoji := "😄"
  memoryCellText := "Label"
  memoryCellDate := none
  memoryCellImageURL := none
  labels_eq := nofun

/-- `setMemory`, which sets every label whatever the cell was before. -/
def setMemory (_ : MemoryTableViewCell) (memory : CloudMemory) : MemoryTableViewCell where
  memory := some memory
  memoryCellTitle := memory.title
  memoryCellEmoji := sentimentEmoji memory.sentiment
  memoryCellText := memory.content
  memoryCellDate := some memory.saveDate
  memoryCellImageURL := memory.imageURL
  labels_eq := by simp

end MemoryTableViewCell

/-- A `getMemory` under way: the cell object its completion captures, and the document. -/
structure CellFetch where
  cell : ℕ
  documentID : DocumentID
  deriving DecidableEq

/-- The table with its cell objects, which are told apart by number. Its list of documents stays
the same during a run. -/
structure CellTable where
  documentIDs : List DocumentID
  cells : ℕ → MemoryTableViewCell
  /-- The rows on the screen, each with its cell object. -/
  visible : List (ℕ × ℕ)
  fetches : List CellFetch

/-- What can happen to the table. -/
inductive CellEvent where
  /-- A row scrolls onto the screen and dequeues a cell object. -/
  | cellForRow (row cell : ℕ)
  /-- A row scrolls off the screen. -/
  | endDisplaying (row : ℕ)
  /-- The `i`-th `getMemory` under way is answered, with the document and its image. -/
  | answer (i : ℕ) (document : Option Document) (imageURL : Result URL)
  deriving DecidableEq

namespace CellTable

/-- One step of the table: `none` where the event cannot happen. A row on the screen has
one cell, and only a cell that is in use nowhere can be dequeued. -/
def step (s : CellTable) (e : CellEvent) : Option CellTable :=
  match e with
  | .cellForRow row cell =>
    match s.documentIDs[row]? with
    | some documentID =>
      if ∀ p ∈ s.visible, p.1 ≠ row ∧ p.2 ≠ cell then
        some { s with
          visible := (row, cell) :: s.visible
          fetches := s.fetches ++ [⟨cell, documentID⟩] }
      else none
    | none => none
  | .endDisplaying row => some { s with visible := s.visible.filter fun p => p.1 ≠ row }
  | .answer i document imageURL =>
    match s.fetches[i]? with
    | some fetch =>
      let t := { s with fetches := s.fetches.eraseIdx i }
      match Firebase.getMemory fetch.documentID document imageURL with
      | some memory =>
        some { t with
          cells := Function.update s.cells fetch.cell ((s.cells fetch.cell).setMemory memory) }
      | none => some t
    | none => none

/-- The table before the first row is shown. -/
def start (documentIDs : List DocumentID) : CellTable where
  documentIDs
  cells := fun _ => .new
  visible := []
  fetches := []

/-- `tableView.cellForRow(at:)`: the cell of a row on the screen. -/
def cellForRow (s : CellTable) (row : ℕ) : Option MemoryTableViewCell :=
  (s.visible.find? fun p => p.1 = row).map fun p => s.cells p.2

/-- `prepare(for:sender:)`: the memory that the details screen is given from a row. -/
def memoryFromSegue (s : CellTable) (row : ℕ) : Option CloudMemory :=
  (s.cellForRow row).bind MemoryTableViewCell.memory

/-- Every cell on the screen holds no memory or the memory of its row. -/
def ShowsOwn (s : CellTable) : Prop :=
  ∀ p ∈ s.visible, ∀ memory ∈ (s.cells p.2).memory,
    s.documentIDs[p.1]? = some memory.documentID

/-- The details screen is given no memory or the memory of the row. -/
def OpensOwn (s : CellTable) : Prop :=
  ∀ row, ∀ memory ∈ s.memoryFromSegue row, s.documentIDs[row]? = some memory.documentID

/-- The step puts no foreign memory on the screen: a dequeued cell holds no memory or the
one of its new row, and a memory that arrives finds its cell off the screen or at a
row of that memory. -/
def CellsKept (s : CellTable) (e : CellEvent) : Prop :=
  match e with
  | .cellForRow row cell => ∀ memory ∈ (s.cells cell).memory,
      s.documentIDs[row]? = some memory.documentID
  | .answer i document _ => (∃ data ∈ document, Firebase.WellFormed data) →
      ∀ fetch ∈ s.fetches[i]?, ∀ p ∈ s.visible, p.2 = fetch.cell →
        s.documentIDs[p.1]? = some fetch.documentID
  | .endDisplaying _ => True

instance (s : CellTable) : ∀ e, Decidable (s.CellsKept e)
  | .cellForRow _ _ => inferInstanceAs (Decidable (∀ _ ∈ _, _))
  | .answer _ _ _ => inferInstanceAs (Decidable (_ → _))
  | .endDisplaying _ => isTrue trivial

/-- A row opens what its cell shows. -/
theorem ShowsOwn.opensOwn {s : CellTable} (h : s.ShowsOwn) : s.OpensOwn := by
  intro row memory hmemory
  obtain ⟨cell, hcell, hmemory⟩ := Option.bind_eq_some_iff.mp hmemory
  obtain ⟨p, hp, rfl⟩ := Option.map_eq_some_iff.mp hcell
  have hrow : p.1 = row := by simpa using List.find?_some hp
  rw [← hrow]
  exact h p (List.mem_of_find?_eq_some hp) memory hmemory

/-- A memory written into a cell is shown at its own row exactly where the cell is off the
screen or at a row of the memory. -/
theorem showsOwn_setMemory_iff {s : CellTable} (h : s.ShowsOwn) (fetches : List CellFetch)
    (cell : ℕ) (memory : CloudMemory) :
    ShowsOwn { s with
      cells := Function.update s.cells cell ((s.cells cell).setMemory memory)
      fetches := fetches } ↔
    ∀ p ∈ s.visible, p.2 = cell → s.documentIDs[p.1]? = some memory.documentID := by
  constructor
  · intro hshows p hp hcell
    refine hshows p hp memory ?_
    simp only [hcell, Function.update_self]
    rfl
  · intro hrows p hp m hm
    simp only at hp hm ⊢
    by_cases hcell : p.2 = cell
    · rw [hcell, Function.update_self] at hm
      cases hm
      exact hrows p hp hcell
    · rw [Function.update_of_ne hcell] at hm
      exact h p hp m hm

/-- A step that puts no foreign memory on the screen keeps every row with its own, and no
other step does. -/
theorem showsOwn_step_iff {s t : CellTable} {e : CellEvent} (h : s.ShowsOwn)
    (hstep : s.step e = some t) : s.CellsKept e ↔ t.ShowsOwn := by
  cases e with
  | cellForRow row cell =>
    simp only [step] at hstep
    split at hstep
    · split at hstep
      · cases hstep
        constructor
        · intro hkept p hp memory hmemory
          rcases List.mem_cons.mp hp with rfl | hp
          · exact hkept memory hmemory
          · exact h p hp memory hmemory
        · exact fun hshows => hshows (row, cell) List.mem_cons_self
      · cases hstep
    · cases hstep
  | endDisplaying row =>
    cases hstep
    exact iff_of_true trivial fun p hp => h p (List.mem_of_mem_filter hp)
  | answer i document imageURL =>
    simp only [step] at hstep
    split at hstep
    · rename_i fetch hfetch
      have hwell := Firebase.isSome_getMemory_iff fetch.documentID document imageURL
      split at hstep
      · rename_i memory hmemory
        cases hstep
        rw [showsOwn_setMemory_iff h, Firebase.documentID_of_getMemory hmemory]
        have hdocument : ∃ data ∈ document, Firebase.WellFormed data :=
          hwell.mp (by rw [hmemory]; rfl)
        constructor
        · exact fun hkept => hkept hdocument fetch hfetch
        · intro hrows _ fetch' hfetch'
          obtain rfl := Option.some.inj (hfetch.symm.trans hfetch')
          exact hrows
      · rename_i hnone
        cases hstep
        have hdocument : ¬∃ data ∈ document, Firebase.WellFormed data := by
          intro hdata
          have := hwell.mpr hdata
          rw [hnone] at this
          cases this
        exact iff_of_true (fun hdata => absurd hdata hdocument) h
    · cases hstep

/-- **Every row shows and opens its own memory** throughout a run exactly when every
dequeued cell and every late memory finds nothing foreign. -/
theorem showsOwn_iff_cellsKept (documentIDs : List DocumentID) (es : List CellEvent) :
    Always step (fun _ _ t => t.ShowsOwn ∧ t.OpensOwn) (start documentIDs) es ↔
      Always step (fun s e _ => s.CellsKept e) (start documentIDs) es := by
  refine (always_iff_of_invariant (I := ShowsOwn) (fun s e t h hstep => ?_)
    (fun s e t h hstep => (showsOwn_step_iff h hstep).mp) ?_ es).symm
  · rw [showsOwn_step_iff h hstep]
    exact ⟨fun hshows => ⟨hshows, hshows.opensOwn⟩, And.left⟩
  · exact fun p hp => absurd hp List.not_mem_nil

/-- The cell of the first row is dequeued for the second and still holds the first memory. -/
theorem reused_cell_shows_other :
    ¬∀ (documentIDs : List DocumentID) (es : List CellEvent),
      Always step (fun _ _ t => t.ShowsOwn ∧ t.OpensOwn) (start documentIDs) es := by
  intro h
  let document := Document.ofMemory
    { title := "Good day", content := "", sentiment := 70, saveDate := 0, image := none } []
  have hrun := h ["a", "b"] [.cellForRow 0 0, .answer 0 (some document) (.error "no image"),
    .endDisplaying 0, .cellForRow 1 0]
  have hlast := (((hrun _ rfl).2 _ rfl).2 _ rfl).2 _ rfl
  exact absurd (hlast.1.1 (1, 0) List.mem_cons_self _ rfl) (by decide)

end CellTable

end FeelBetter
