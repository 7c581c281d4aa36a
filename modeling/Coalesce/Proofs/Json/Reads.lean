import Coalesce.Error
import Coalesce.Proofs.Json.Grammar

namespace Coalesce.Json

variable {α β : Type}

theorem isBlank_iff (c : Char) : Reader.isBlank c ↔ Blank c := by
  simp only [Reader.isBlank, Blank, Bool.or_eq_true, decide_eq_true_eq]
  grind

theorem Blanks.nil : Blanks [] := by simp [Blanks]

theorem Blanks.append {b b' : List Char} (h : Blanks b) (h' : Blanks b') : Blanks (b ++ b') := by
  intro c hc
  exact (List.mem_append.mp hc).elim (h c) (h' c)

/-- What may stand behind a number: nothing that could continue it. -/
def Apart (r : List Char) : Prop := ∀ c ∈ r.head?, c.isDigit = false ∧ c ≠ '.' ∧ c ≠ 'e' ∧ c ≠ 'E'

theorem Apart.nil : Apart [] := by simp [Apart]

theorem apart_cons {c : Char} {r : List Char} :
    Apart (c :: r) ↔ c.isDigit = false ∧ c ≠ '.' ∧ c ≠ 'e' ∧ c ≠ 'E' := by
  simp [Apart]

theorem Blanks.apart {b r : List Char} (h : Blanks b) (hr : Apart r) : Apart (b ++ r) := by
  cases b with
  | nil => exact hr
  | cons c b =>
    rw [List.cons_append, apart_cons]
    rcases h c List.mem_cons_self with rfl | rfl | rfl | rfl <;> decide

namespace Reader

section Runs

/-- What a reader that is given by its equations comes to. -/
def forget {s : List Char} : Except Fault (α × Rest s) → Except Fault (α × List Char)
  | .error e => .error e
  | .ok (a, ⟨r, _⟩) => .ok (a, r)

theorem run_eq_forget (p : Reader α) (s : List Char) : run p s = forget (p s) := rfl

@[simp] theorem forget_error {s : List Char} (e : Fault) :
    forget (.error e : Except Fault (α × Rest s)) = .error e := rfl

@[simp] theorem forget_ok {s : List Char} (a : α) (r : Rest s) :
    forget (.ok (a, r)) = .ok (a, r.val) := rfl

@[simp] theorem forget_shorten {s t : List Char} (h : t.length ≤ s.length)
    (x : Except Fault (α × Rest t)) : forget (shorten h x) = forget x := by
  cases x <;> rfl

@[simp] theorem run_stop (c : Cause) (s : List Char) :
    run (stop c : Reader α) s = .error ⟨c, s, 0⟩ := rfl

@[simp] theorem run_stopAhead (c : Cause) (s : List Char) :
    run (stopAhead c : Reader α) s = .error ⟨c, s, 1⟩ := rfl

@[simp] theorem run_peek (s : List Char) : run peek s = .ok (s.head?, s) := rfl

@[simp] theorem run_advance (s : List Char) : run advance s = .ok ((), s.tail) := rfl

@[simp] theorem run_takeWhile (p : Char → Bool) (s : List Char) :
    run (takeWhile p) s = .ok (s.takeWhile p, s.dropWhile p) := rfl

attribute [simp] run_pure

theorem run_pure_eq_ok {a x : α} {s r : List Char} :
    run (pure a) s = .ok (x, r) ↔ a = x ∧ s = r := by
  simp

theorem run_bind_of_ok {p : Reader α} {f : α → Reader β} {s r : List Char} {a : α}
    (h : run p s = .ok (a, r)) : run (p >>= f) s = run (f a) r := by
  rw [run_bind, h]

theorem run_bind_eq_ok {p : Reader α} {f : α → Reader β} {s r : List Char} {x : β} :
    run (p >>= f) s = .ok (x, r) ↔ ∃ a q, run p s = .ok (a, q) ∧ run (f a) q = .ok (x, r) := by
  rw [run_bind]
  cases run p s with
  | error e => simp
  | ok y => grind

theorem run_bind_assoc {γ : Type} (p : Reader α) (f : α → Reader β) (g : β → Reader γ)
    (s : List Char) : run (p >>= f >>= g) s = run (p >>= fun a => f a >>= g) s := by
  simp only [run_bind]
  cases run p s <;> rfl

theorem length_le_of_run {p : Reader α} {s r : List Char} {a : α} (h : run p s = .ok (a, r)) :
    r.length ≤ s.length := by
  unfold run at h
  split at h
  · cases h
  · cases h
    assumption

@[simp] theorem run_advance_bind (p : Unit → Reader α) (c : Char) (s : List Char) :
    run (advance >>= p) (c :: s) = run (p ()) s := run_bind_of_ok (run_advance _)

@[simp] theorem run_peek_bind (f : Option Char → Reader α) (s : List Char) :
    run (peek >>= f) s = run (f s.head?) s := run_bind_of_ok (run_peek s)

theorem run_word {cs s r : List Char} {x : Unit} : run (word cs) s = .ok (x, r) ↔ s = cs ++ r := by
  induction cs generalizing s with
  | nil => simp [word]
  | cons c cs ih =>
    cases s with
    | nil => simp [word]
    | cons d s =>
      by_cases hd : d = c
      · simp [word, hd, ih]
      · simp [word, hd]

end Runs

section Blanks

theorem pastBlanks_append {b : List Char} (hb : Blanks b) (s : List Char) :
    (pastBlanks (b ++ s)).val = (pastBlanks s).val := by
  have h : ∀ c ∈ b, isBlank c := fun c hc => (isBlank_iff c).mpr (hb c hc)
  exact List.dropWhile_append_of_pos h

theorem pastBlanks_cons {c : Char} (hc : ¬Blank c) (s : List Char) :
    (pastBlanks (c :: s)).val = c :: s := by
  have h : ¬isBlank c := fun h => hc ((isBlank_iff c).mp h)
  simp [pastBlanks, h]

theorem pastBlanks_front {b : List Char} {c : Char} (hb : Blanks b) (hc : ¬Blank c)
    (s : List Char) : (pastBlanks (b ++ c :: s)).val = c :: s := by
  rw [pastBlanks_append hb, pastBlanks_cons hc]

theorem pastBlanks_of_blanks {b : List Char} (hb : Blanks b) : (pastBlanks b).val = [] := by
  rw [← List.append_nil b, pastBlanks_append hb]
  rfl

/-- A text is its blanks and what comes after them. -/
theorem eq_append_pastBlanks (s : List Char) : ∃ b, Blanks b ∧ s = b ++ (pastBlanks s).val ∧
    ∀ c ∈ (pastBlanks s).val.head?, ¬Blank c := by
  refine ⟨s.takeWhile isBlank, ?_, List.takeWhile_append_dropWhile.symm, ?_⟩
  · intro c hc
    exact (isBlank_iff c).mp (List.all_eq_true.mp List.all_takeWhile c hc)
  · intro c hc hb
    have := List.head?_dropWhile_not isBlank s
    rw [show s.dropWhile isBlank = (pastBlanks s).val from rfl, Option.mem_def.mp hc] at this
    simp [(isBlank_iff c).mpr hb] at this

variable {f : Option Char → Reader α} {s r : List Char} {a : α}

theorem run_peekPastBlanks_bind (f : Option Char → Reader α) (s : List Char) :
    run (peekPastBlanks >>= f) s = run (f (pastBlanks s).val.head?) (pastBlanks s).val :=
  run_bind_of_ok rfl

theorem run_front (f : Option Char → Reader α) {b : List Char} {c : Char} (hb : Blanks b)
    (hc : ¬Blank c) (s : List Char) :
    run (peekPastBlanks >>= f) (b ++ c :: s) = run (f (some c)) (c :: s) := by
  rw [run_peekPastBlanks_bind, pastBlanks_front hb hc, List.head?_cons]

theorem run_front_end (f : Option Char → Reader α) {b : List Char} (hb : Blanks b) :
    run (peekPastBlanks >>= f) b = run (f none) [] := by
  rw [run_peekPastBlanks_bind, pastBlanks_of_blanks hb, List.head?_nil]

/-- What stands behind the blanks decides how reading goes on. -/
theorem front_of_run (h : run (peekPastBlanks >>= f) s = .ok (a, r)) :
    (Blanks s ∧ run (f none) [] = .ok (a, r)) ∨
      ∃ b c t, Blanks b ∧ ¬Blank c ∧ s = b ++ c :: t ∧ run (f (some c)) (c :: t) = .ok (a, r) := by
  obtain ⟨b, hb, hs, hfront⟩ := eq_append_pastBlanks s
  cases ht : (pastBlanks s).val with
  | nil =>
    rw [ht, List.append_nil] at hs
    rw [hs] at h ⊢
    rw [run_front_end f hb] at h
    exact .inl ⟨hb, h⟩
  | cons c t =>
    have hc : ¬Blank c := hfront c (by simp [ht])
    rw [ht] at hs
    rw [hs, run_front f hb hc] at h
    exact .inr ⟨b, c, t, hb, hc, hs, h⟩

end Blanks

/-- `p` reads just the texts that `G` accepts, with blanks before them, as what `G` makes of them.
Numbers have no end of their own, so what follows has to be apart. -/
structure Reads (p : Reader α) (G : α → List Char → Prop) : Prop where
  sound : ∀ {s r : List Char} {a : α}, run p s = .ok (a, r) →
    ∃ b u, Blanks b ∧ G a u ∧ s = b ++ (u ++ r)
  complete : ∀ {b u r : List Char} {a : α}, Blanks b → G a u → Apart r →
    run p (b ++ (u ++ r)) = .ok (a, r)
  front : ∀ {a : α} {u : List Char}, G a u → ∃ c t, u = c :: t ∧ ¬Blank c ∧ c ≠ ']'

/-- Reading that starts past the blanks. -/
theorem Reads.of_front {f : Option Char → Reader α} {G : α → List Char → Prop}
    (ended : ∀ a r, run (f none) [] ≠ .ok (a, r))
    (sound : ∀ {c : Char} {t r : List Char} {a : α}, run (f (some c)) (c :: t) = .ok (a, r) →
      ∃ u, G a u ∧ c :: t = u ++ r)
    (complete : ∀ {c : Char} {t r : List Char} {a : α}, G a (c :: t) → Apart r →
      run (f (some c)) (c :: (t ++ r)) = .ok (a, r))
    (front : ∀ {a : α} {u : List Char}, G a u → ∃ c t, u = c :: t ∧ ¬Blank c ∧ c ≠ ']') :
    Reads (peekPastBlanks >>= f) G where
  sound h := by
    obtain ⟨-, h'⟩ | ⟨b, c, t, hb, -, hs, h'⟩ := front_of_run h
    · exact absurd h' (ended _ _)
    · obtain ⟨u, hu, ht⟩ := sound h'
      exact ⟨b, u, hb, hu, by rw [hs, ht]⟩
  complete hb hu hr := by
    obtain ⟨c, t, rfl, hc, -⟩ := front hu
    rw [List.cons_append, run_front f hb hc]
    exact complete hu hr
  front := front

variable {p : Reader α} {G : α → List Char → Prop}

theorem Reads.congr {G' : α → List Char → Prop} (hp : Reads p G) (h : ∀ a u, G a u ↔ G' a u) :
    Reads p G' := by
  have hG : G = G' := funext fun a => funext fun u => propext (h a u)
  exact hG ▸ hp

/-- Reading a whole text finds just what `G` makes of it. -/
theorem Reads.parse_eq_ok_iff (hp : Reads p G) {text : String} {a : α} :
    parse p text = .ok a ↔ Document G a text.toList := by
  have hparse : parse p text = .ok a ↔
      ∃ r, run (do let a ← p; finish; pure a) text.toList = .ok (a, r) := by
    unfold parse
    cases run (do let a ← p; finish; pure a) text.toList <;> simp [Prod.ext_iff]
  rw [hparse]
  constructor
  · rintro ⟨r, h⟩
    obtain ⟨a', q, ha, h⟩ := run_bind_eq_ok.mp h
    obtain ⟨_, q', hfinish, h⟩ := run_bind_eq_ok.mp h
    obtain ⟨rfl, rfl⟩ := run_pure_eq_ok.mp h
    obtain ⟨b, u, hb, hu, hs⟩ := hp.sound ha
    obtain ⟨hq, -⟩ | ⟨-, c, t, -, -, -, h⟩ := front_of_run hfinish
    · exact ⟨b, u, q, hb, hq, hu, hs⟩
    · cases h
  · rintro ⟨b, u, b', hb, hb', hu, hs⟩
    have ha := hp.complete hb hu (List.append_nil b' ▸ hb'.apart .nil)
    have hfinish : run finish b' = .ok ((), []) := run_front_end _ hb'
    exact ⟨[], by rw [hs, run_bind_of_ok ha, run_bind_of_ok hfinish]; rfl⟩

theorem ofParse_eq_ok {x : Except Error α} {a : α} :
    Coalesce.Error.ofParse x = .ok a ↔ x = .ok a := by
  cases x <;> simp [Coalesce.Error.ofParse]

theorem Reads.ofParse_eq_ok_iff (hp : Reads p G) {text : String} {a : α} :
    Coalesce.Error.ofParse (parse p text) = .ok a ↔ Document G a text.toList :=
  ofParse_eq_ok.trans hp.parse_eq_ok_iff

/-- A text that `G` makes nothing of is malformed. -/
theorem Reads.document_or_malformed (hp : Reads p G) (text : String) :
    (∃ a, Document G a text.toList) ∨
      ∃ e, Coalesce.Error.ofParse (parse p text) = .error (.malformed e) := by
  cases h : parse p text with
  | ok a => exact .inl ⟨a, hp.parse_eq_ok_iff.mp h⟩
  | error e => exact .inr ⟨e, rfl⟩

end Reader

end Coalesce.Json
