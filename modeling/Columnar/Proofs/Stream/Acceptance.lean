import Columnar.Proofs.Schema.Published
import Columnar.Proofs.Stream.RoundTrip

/-!
# Rows that are never refused

A row that was filled slot by slot under a published schema is one that every writer
on the schema takes, as long as it is open and its columns have room.  Whatever was
written, refused or flushed before, the writer has no row open and is not full, and
each of its columns takes the value of the slot, or the default of the field in its
place.

## Main results

* `Writer.exists_make` — a writer can be opened on any finalized schema.
* `Writer.never_refuses` — filled rows are written.
-/

namespace Columnar
namespace Writer

variable {s : Schema} {settings : Settings}

/-- A writer can be opened under settings that pass their check. -/
theorem exists_make (hs : s.Finalized) (hsettings : settings.check = .ok ()) :
    ∃ w, make Memory.empty s settings = .ok w := by
  obtain ⟨layout, hl⟩ := Schema.layout_of_finalized hs
  obtain ⟨hrows, -⟩ := Settings.check_eq_ok_iff.mp hsettings
  have hsetup : checkSetup s settings = .ok () := by
    rw [checkSetup, hsettings]
    exact if_pos (Schema.isResolved_of_finalized hs)
  have hdraft := Draft.make_eq hl (Nat.ne_of_gt hrows)
  exact ⟨start Memory.empty s _, by rw [make, hsetup, hdraft]; rfl⟩

variable [TextHash]

/-- A filled row is written after any calls that leave the writer open, unless there is no room for it
behind the rows that the writer holds. -/
theorem writeRow_of_filled (hs : s.Finalized) {w₀ : Writer Memory} (h : Opened s settings w₀)
    {layout : List (Kind × Storage)} (hl : s.layout = .ok layout) {calls : List WriterCall}
    (hopen : (w₀.run calls).closed = false) {row : Row} (hrow : row.Filled s) :
    let held := (w₀.follow settings.pageRows .empty calls).held
    (Draft.HasRoom (s.shapes layout) held row.slots → ((w₀.run calls).writeRow row).1 = .ok ()) ∧
      (¬ Draft.HasRoom (s.shapes layout) held row.slots →
        ∃ store, ((w₀.run calls).writeRow row).1 = .error (.overflow store)) := by
  intro held
  obtain ⟨layout', hl', hstart, hpos⟩ := tracks_start h
  obtain rfl := Except.ok.inj (hl.symm.trans hl')
  obtain ⟨htracks, hroom⟩ := tracks_run hstart hpos calls
  have henters := enters_of_filled hs hl hrow
  rcases tracks_writeRow htracks hroom row with
    ⟨w', hw, -, -, -, hspace⟩ | ⟨e, w', hw, -, hnot, hcause⟩
  · rw [hw]
    exact ⟨fun _ => rfl, fun hfull => absurd hspace hfull⟩
  · obtain ⟨store, rfl⟩ := hcause hopen henters
    rw [hw]
    exact ⟨fun hspace => absurd ⟨hopen, henters, hspace⟩ hnot, fun _ => ⟨store, rfl⟩⟩

/-- **A well-formed row is never refused.**  In a published schema every field is resolved, to a kind
that is no reference and with a default of its storage.  So writers can be opened on it, and in every
state that a writer over memory comes to while it is open, it writes every row that was filled slot by
slot.  Only the columns can be out of room for what the row stores, behind the rows that the writer
holds, and then this is what is said. -/
theorem never_refuses [Calendar] (hs : s.Published) :
    (∀ f ∈ s.fields, ∃ r, f.resolution = some r ∧ r.Serves f) ∧
      (∀ settings : Settings, settings.check = .ok () →
        ∃ w, make Memory.empty s settings = .ok w) ∧
      ∃ layout, s.layout = .ok layout ∧
        ∀ (settings : Settings) (w₀ : Writer Memory), Opened s settings w₀ →
          ∀ (calls : List WriterCall) (row : Row), (w₀.run calls).closed = false → row.Filled s →
            let held := (w₀.follow settings.pageRows .empty calls).held
            (Draft.HasRoom (s.shapes layout) held row.slots → ((w₀.run calls).writeRow row).1 = .ok ()) ∧
              (¬ Draft.HasRoom (s.shapes layout) held row.slots →
                ∃ store, ((w₀.run calls).writeRow row).1 = .error (.overflow store)) := by
  obtain ⟨layout, hl⟩ := Schema.layout_of_finalized hs.finalized
  refine ⟨fun f hf => hs.formed.serves hs.isResolved hf,
    fun settings hsettings => exists_make hs.finalized hsettings, layout, hl, ?_⟩
  intro settings w₀ hopened calls row hopen hrow
  exact writeRow_of_filled hs.finalized hopened hl hopen hrow

end Writer

/-! ### A row after a refused one -/

namespace Writer

open scoped Builtin

/-- A schema whose only field refers to one with a default in another schema, and has none itself. -/
def settledReading : Schema := Catalog.reading.resolvedTo [⟨.uint64, none⟩]

theorem published_settledReading : settledReading.Published := by
  have hsensor : Catalog.settledSensor.Formed :=
    .alone (Schema.formed_of_declared (by decide)) Catalog.finalize_sensor
  have hreading : Catalog.reading.Formed := Schema.formed_of_declared (by decide)
  refine .member ?_ Catalog.finalize_sensors List.mem_cons_self
  intro s hs
  rcases List.mem_cons.mp hs with rfl | hs
  · exact hreading
  · exact List.mem_singleton.mp hs ▸ hsensor

/-- A writer of readings, with four to a page. -/
def recording : Writer Memory :=
  start Memory.empty settledReading
    ⟨settledReading, 4, 0, Draft.emptyLanes settledReading [(.uint64, .uint)]⟩

/-- A row is written after one with a value of a wrong storage was refused. -/
theorem never_refuses_recording :
    let before : List WriterCall := [.row ((Row.blank settledReading).put 0 (some (.bool true)))]
    (recording.results before).map Except.isOk = [false] ∧
      ((recording.run before).writeRow ((Row.blank settledReading).put 0 (some (.uint 5)))).1 = .ok () := by
  intro before
  have hopened : Opened settledReading .small recording :=
    .own (rfl : make Memory.empty settledReading .small = .ok recording)
  have hset : (Row.blank settledReading).set 0 (.uint 5) =
      .ok ((Row.blank settledReading).put 0 (some (.uint 5))) := rfl
  obtain ⟨-, -, layout, hl, hwrites⟩ := never_refuses published_settledReading
  obtain rfl : [(.uint64, .uint)] = layout := Except.ok.inj hl
  have hwritten := hwrites .small recording hopened before _ (by decide +kernel) (.set .blank hset)
  exact ⟨by decide +kernel, hwritten.1 (by decide +kernel)⟩

end Writer
end Columnar
