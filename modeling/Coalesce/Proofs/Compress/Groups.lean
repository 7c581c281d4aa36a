import Mathlib.Data.List.Chain
import Coalesce.Proofs.Compress.Front

namespace Coalesce

/-- Tokens that become one: an interpolation, or literals of which each starts where the one before
it stops. -/
inductive Group where
  | interpolation (t : Token) (hk : t.kind = .interpolation)
  | literals (t : Token) (ts : List Token) (hk : ∀ u ∈ t :: ts, u.kind = .literal)
      (hc : (t :: ts).IsChain fun x y => x.span.stop = y.span.start)

namespace Group

def tokens : Group → List Token
  | interpolation t _ => [t]
  | literals t ts _ _ => t :: ts

def first : Group → Token
  | interpolation t _ | literals t _ _ _ => t

def last : Group → Token
  | interpolation t _ => t
  | literals t ts _ _ => (t :: ts).getLast (List.cons_ne_nil t ts)

def token : Group → Token
  | interpolation t _ => t
  | g@(literals t ts _ _) =>
    ⟨.literal, String.join ((t :: ts).map (·.text)), ⟨t.span.start, g.last.span.stop⟩⟩

def single (t : Token) : Group :=
  match hk : t.kind with
  | .interpolation => interpolation t hk
  | .literal => literals t [] (by simpa using hk) (.singleton t)

def cons (t : Token) (g : Group) (h : t.Touches g.first) : Group :=
  match g with
  | interpolation _ hk => absurd (hk.symm.trans h.2.1) nofun
  | literals u us hk hc =>
    literals t (u :: us) (List.forall_mem_cons.2 ⟨h.1, hk⟩) (.cons_cons h.2.2 hc)

variable {t : Token} {g : Group}

theorem tokens_eq_cons (g : Group) : ∃ ts, g.tokens = g.first :: ts := by
  cases g with
  | interpolation t hk => exact ⟨[], rfl⟩
  | literals t ts hk hc => exact ⟨ts, rfl⟩

@[simp] theorem tokens_single (t : Token) : (single t).tokens = [t] := by
  unfold single
  split <;> rfl

@[simp] theorem last_single (t : Token) : (single t).last = t := by
  unfold single
  split <;> rfl

@[simp] theorem token_single (t : Token) : (single t).token = t := by
  unfold single
  split
  · rfl
  · rename_i hk
    simp [token, last, ← hk]

theorem exists_literals (h : t.Touches g.first) : ∃ u us hk hc, g = literals u us hk hc := by
  cases g with
  | interpolation u hk => exact absurd (hk.symm.trans h.2.1) nofun
  | literals u us hk hc => exact ⟨u, us, hk, hc, rfl⟩

@[simp] theorem tokens_cons (h : t.Touches g.first) : (g.cons t h).tokens = t :: g.tokens := by
  obtain ⟨u, us, hk, hc, rfl⟩ := exists_literals h
  rfl

@[simp] theorem last_cons (h : t.Touches g.first) : (g.cons t h).last = g.last := by
  obtain ⟨u, us, hk, hc, rfl⟩ := exists_literals h
  rfl

@[simp] theorem token_cons (h : t.Touches g.first) : (g.cons t h).token = t.join g.token := by
  obtain ⟨u, us, hk, hc, rfl⟩ := exists_literals h
  simp [cons, token, last, Token.join, String.join_cons]

/-- What touches a group touches the token that the group becomes. -/
theorem touches_token : t.Touches g.token ↔ t.Touches g.first := by
  cases g with
  | interpolation u hk => rfl
  | literals u us hk hc => simp [Token.Touches, token, first, hk u List.mem_cons_self]

theorem eq_single (h : g.tokens = [t]) : g = single t := by
  unfold single
  cases g with
  | interpolation u hk =>
    obtain rfl : u = t := List.head_eq_of_cons_eq h
    split
    · rfl
    · rename_i hl
      exact absurd (hk.symm.trans hl) nofun
  | literals u us hk hc =>
    obtain ⟨rfl, rfl⟩ : u = t ∧ us = [] := List.cons.inj h
    split
    · rename_i hi
      exact absurd ((hk u List.mem_cons_self).symm.trans hi) nofun
    · rfl

theorem eq_single_or_cons (g : Group) :
    g = single g.first ∨ ∃ (t : Token) (g' : Group) (h : t.Touches g'.first), g = g'.cons t h := by
  cases g with
  | interpolation t hk => exact .inl (eq_single rfl)
  | literals t ts hk hc =>
    cases ts with
    | nil => exact .inl (eq_single rfl)
    | cons u us =>
      right
      obtain ⟨ht, hk'⟩ := List.forall_mem_cons.1 hk
      obtain ⟨hs, hc'⟩ := List.isChain_cons_cons.1 hc
      exact ⟨t, .literals u us hk' hc', ⟨ht, hk' u List.mem_cons_self, hs⟩, rfl⟩

end Group

/-- The groups lie side by side in `ts`, and no two neighbours could be joined. -/
structure IsCut (ts : List Token) (gs : List Group) : Prop where
  tokens : gs.flatMap Group.tokens = ts
  apart : gs.IsChain fun g h => ¬ g.last.Touches h.first

/-- Puts a token in front of groups, into the first one if it touches that. -/
def Group.prepend (t : Token) : List Group → List Group
  | [] => [single t]
  | g :: gs => if h : t.Touches g.first then g.cons t h :: gs else single t :: g :: gs

/-- The groups that tokens fall into. -/
def cut : List Token → List Group
  | [] => []
  | t :: ts => Group.prepend t (cut ts)

namespace IsCut

variable {t : Token} {ts : List Token} {g : Group} {gs : List Group}

theorem prepend (h : IsCut ts gs) (t : Token) : IsCut (t :: ts) (Group.prepend t gs) := by
  obtain ⟨rfl, ha⟩ := h
  cases gs with
  | nil => exact ⟨by simp [Group.prepend], .singleton _⟩
  | cons g gs =>
    rw [Group.prepend]
    split
    · rename_i ht
      refine ⟨by simp, ?_⟩
      cases gs with
      | nil => exact .singleton _
      | cons g' gs =>
        obtain ⟨hg, ha⟩ := List.isChain_cons_cons.1 ha
        exact .cons_cons (by rwa [Group.last_cons]) ha
    · rename_i ht
      exact ⟨by simp, .cons_cons (by rwa [Group.last_single]) ha⟩

theorem tail (h : IsCut ts (g :: gs)) : IsCut (gs.flatMap Group.tokens) gs :=
  ⟨rfl, h.apart.tail⟩

theorem prepend_of_single (h : IsCut ts (.single t :: gs)) :
    Group.prepend t gs = .single t :: gs := by
  cases gs with
  | nil => rfl
  | cons g gs =>
    have hn := (List.isChain_cons_cons.1 h.apart).1
    rw [Group.last_single] at hn
    exact dif_neg hn

theorem of_cons {ht : t.Touches g.first} (h : IsCut ts (g.cons t ht :: gs)) :
    IsCut (g.tokens ++ gs.flatMap Group.tokens) (g :: gs) := by
  refine ⟨rfl, ?_⟩
  cases gs with
  | nil => exact .singleton g
  | cons g' gs =>
    obtain ⟨hn, ha⟩ := List.isChain_cons_cons.1 h.apart
    rw [Group.last_cons] at hn
    exact .cons_cons hn ha

end IsCut

theorem isCut_cut (ts : List Token) : IsCut ts (cut ts) := by
  induction ts with
  | nil => exact ⟨rfl, .nil⟩
  | cons t ts ih => exact ih.prepend t

theorem IsCut.eq_cut {ts : List Token} {gs : List Group} (h : IsCut ts gs) : gs = cut ts := by
  induction ts generalizing gs with
  | nil =>
    cases gs with
    | nil => rfl
    | cons g gs =>
      obtain ⟨us, hg⟩ := g.tokens_eq_cons
      have ht := h.tokens
      simp [hg] at ht
  | cons t ts ih =>
    cases gs with
    | nil => exact absurd h.tokens nofun
    | cons g gs =>
      have ht := h.tokens
      rw [List.flatMap_cons] at ht
      -- Without its first token, the first group is gone or still one of a cut.
      rcases g.eq_single_or_cons with hg | ⟨u, g, hu, rfl⟩
      · obtain ⟨hf, rfl⟩ : g.first = t ∧ gs.flatMap Group.tokens = ts := by
          rw [hg, Group.tokens_single] at ht
          exact List.cons.inj ht
        rw [hf] at hg
        subst hg
        rw [cut, ← ih h.tail, h.prepend_of_single]
      · rw [Group.tokens_cons] at ht
        obtain ⟨rfl, rfl⟩ := List.cons.inj ht
        have hc : g :: gs = cut (g.tokens ++ gs.flatMap Group.tokens) := ih h.of_cons
        rw [List.append_eq, cut, ← hc, Group.prepend, dif_pos hu]

theorem map_token_prepend (t : Token) (gs : List Group) :
    (Group.prepend t gs).map Group.token = t.prepend (gs.map Group.token) := by
  cases gs with
  | nil => simp [Group.prepend]
  | cons g gs =>
    rw [Group.prepend, List.map_cons]
    by_cases ht : t.Touches g.first
    · rw [dif_pos ht, Token.prepend_of_touches (Group.touches_token.2 ht), List.map_cons,
        Group.token_cons]
    · rw [dif_neg ht, Token.prepend_of_not_touches (mt Group.touches_token.1 ht), List.map_cons,
        Group.token_single, List.map_cons]

theorem compress_eq_map_cut (ts : List Token) : compress ts = (cut ts).map Group.token := by
  induction ts with
  | nil => rfl
  | cons t ts ih => rw [compress_cons, ih, cut, map_token_prepend]

/-- There is one way to cut tokens into groups of which no two neighbours could be joined, and
compression gives one token for each group. -/
theorem grouping (ts : List Token) :
    ∃ gs, (∀ hs, IsCut ts hs ↔ hs = gs) ∧ compress ts = gs.map Group.token := by
  refine ⟨cut ts, ?_, compress_eq_map_cut ts⟩
  intro hs
  constructor
  · exact IsCut.eq_cut
  · rintro rfl
    exact isCut_cut ts

end Coalesce
