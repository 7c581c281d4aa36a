import Coalesce.Config
import Coalesce.Proofs.Json.Records

namespace Coalesce

open Json Json.Reader

/-- What the texts `us` give of a part that has a default: nothing, and the default holds, or one
text that `P` is true of. -/
inductive Defaulted (P : List Char → Prop) (default : Prop) : List (List Char) → Prop
  | absent : default → Defaulted P default []
  | given {u : List Char} : P u → Defaulted P default [u]

/-- The texts of a record with one part `b`, which may be left out where it is `default`: an object
with at most one member `key`, among other members with any values, or an array of at most one
element. -/
inductive Single {β : Type} (key : String) (P : β → List Char → Prop) (default b : β)
    (u : List Char) : Prop
  | object {ms : List Member} : IsObject ms u → Defaulted (P b) (b = default) (valuesOf key ms) →
      (∀ m ∈ ms, m.key ≠ key → Value m.value) → Single key P default b u
  | array {us : List (List Char)} : IsArray us u → Defaulted (P b) (b = default) us →
      Single key P default b u

def StreamConfigText (c : StreamConfig) : List Char → Prop :=
  Single "buffer_capacity" WordText 16 c.bufferCapacity

def ConfigText (c : Config) : List Char → Prop := Single "stream" StreamConfigText {} c.stream

section Reading

variable {α β : Type}

def onlySlot (name : String) {read : Reader β} {P : β → List Char → Prop} (h : Reads read P) :
    Slot (Option β) := ⟨β, name, read, id, fun _ => some, P, h⟩

variable {name : String} {read : Reader β} {P : β → List Char → Prop} (h : Reads read P)
  {R : Record (Option β) α}

theorem onlySlot_slots (hfields : R.fields = [(onlySlot name h).field]) (hempty : R.empty = none) :
    R.Slots [onlySlot name h] where
  fields := hfields
  nodup := by simp
  get_set := by simp [onlySlot]
  frame := by simp
  empty := by simp [onlySlot, hempty]
  ext := by simp [onlySlot]

theorem gives_iff_defaulted {d b : β} {us : List (List Char)} :
    (∃ x, Record.Gives (onlySlot name h) none x us ∧ x.getD d = b) ↔
      Defaulted (P b) (b = d) us := by
  constructor
  · rintro ⟨x, hx, rfl⟩
    cases hx with
    | none hget =>
      obtain rfl : x = none := hget
      exact .absent rfl
    | one _ hp hget =>
      obtain rfl : x = some _ := hget
      exact .given hp
  · rintro (hdefault | hp)
    · exact ⟨none, .none rfl, hdefault.symm⟩
    · exact ⟨some b, .one rfl hp rfl, rfl⟩

theorem fills_iff_defaulted {d b : β} {us : List (List Char)} :
    (∃ x, Fills [onlySlot name h] us none x ∧ x.getD d = b) ↔ Defaulted (P b) (b = d) us := by
  constructor
  · rintro ⟨x, hx, rfl⟩
    cases hx with
    | nil => exact .absent rfl
    | cons hp hx =>
      cases hx
      exact .given hp
  · rintro (hdefault | hp)
    · exact ⟨none, .nil, hdefault.symm⟩
    · exact ⟨some b, .cons hp .nil, rfl⟩

/-- A record with one part that has a default reads the texts that give it at most once. -/
theorem reads_single (hfields : R.fields = [(onlySlot name h).field]) (hempty : R.empty = none)
    {d : β} (make : β → α) {get : α → β} (hfinish : ∀ x, R.finish x = .ok (make (x.getD d)))
    (hget : ∀ b, get (make b) = b) (hmake : ∀ a, make (get a) = a) :
    Reads R.read fun a => Single name P d (get a) := by
  have hslots := onlySlot_slots h hfields hempty
  refine (hslots.reads (List.cons_ne_nil _ _)).congr fun a u => ?_
  constructor
  · rintro (⟨hms, hx, ha⟩ | ⟨hus, hx, ha⟩)
    · rw [hfinish] at ha
      rw [hempty] at hx
      obtain rfl := Except.ok.inj ha
      obtain ⟨hgives, hothers⟩ := hslots.gives_of_through hx
      have hgive := hgives _ (List.mem_singleton_self _)
      have hpart := (gives_iff_defaulted h (d := d)).mp ⟨_, hgive, rfl⟩
      refine .object hms (hget _ ▸ hpart) fun m hm hkey => hothers m hm fun f hf => ?_
      rw [List.mem_singleton.mp hf]
      exact hkey.symm
    · rw [hfinish] at ha
      rw [hempty] at hx
      obtain rfl := Except.ok.inj ha
      exact .array hus (hget _ ▸ (fills_iff_defaulted h).mp ⟨_, hx, rfl⟩)
  · rintro (⟨hms, hpart, hothers⟩ | ⟨hus, hpart⟩)
    · obtain ⟨x, hx, ha⟩ := (gives_iff_defaulted h).mpr hpart
      have hfinal : R.finish x = .ok a := by rw [hfinish, ha, hmake]
      refine .object hms (hempty ▸ hslots.through_of_gives ?_ ?_) hfinal
      · intro f hf
        rw [List.mem_singleton.mp hf]
        exact hx
      · exact fun m hm hkey => hothers m hm (hkey _ (List.mem_singleton_self _)).symm
    · obtain ⟨x, hx, ha⟩ := (fills_iff_defaulted h).mpr hpart
      exact .array hus (hempty ▸ hx) (by rw [hfinish, ha, hmake])

end Reading

theorem reads_streamConfig : Reads StreamConfig.record.read StreamConfigText :=
  reads_single reads_word rfl rfl StreamConfig.mk (fun x => by cases x <;> rfl)
    (fun _ => rfl) fun _ => rfl

theorem reads_config : Reads Config.record.read ConfigText :=
  reads_single reads_streamConfig rfl rfl Config.mk (fun x => by cases x <;> rfl)
    (fun _ => rfl) fun _ => rfl

theorem Config.parse_eq_ok_iff {text : String} {c : Config} :
    Config.parse text = .ok c ↔ Document ConfigText c text.toList :=
  reads_config.ofParse_eq_ok_iff

end Coalesce
