import Mathlib.Algebra.Order.Group.Int
import Mathlib.Logic.Function.Basic
import Mathlib.Tactic.Cases

/-!
# Counters that expire

A store of counters with a clock. An increment makes a missing counter and keeps
the expiry of one that is there; a counter may go away once it has expired. A key
that is counted in one window only, and never expires within it, gives out every
number once.
-/

namespace PyFaaS.ExpiringCounter
variable {κ : Type*}

structure Counter where
  count : ℕ
  expiresAt : Option ℤ
  deriving DecidableEq

structure Store (κ : Type*) where
  now : ℤ
  counters : κ → Option Counter

inductive Command (κ : Type*) where
  | incr (k : κ)
  | expire (k : κ) (ttl : ℤ)
  | remove (k : κ)
  | advance (now : ℤ)

namespace Store

def empty (now : ℤ) : Store κ := ⟨now, fun _ => none⟩

def count (s : Store κ) (k : κ) : ℕ := ((s.counters k).map Counter.count).getD 0

def Expired (s : Store κ) (k : κ) : Prop :=
  ∃ c t, s.counters k = some c ∧ c.expiresAt = some t ∧ t ≤ s.now

variable [DecidableEq κ]

def set (s : Store κ) (k : κ) (c : Option Counter) : Store κ :=
  { s with counters := Function.update s.counters k c }

def apply (s : Store κ) : Command κ → Store κ
  | .incr k => s.set k (some ⟨s.count k + 1, (s.counters k).bind Counter.expiresAt⟩)
  | .expire k ttl => s.set k ((s.counters k).map fun c => { c with expiresAt := some (s.now + ttl) })
  | .remove k => s.set k none
  | .advance now => { s with now := now }

@[simp] theorem set_now (s : Store κ) (k : κ) (c : Option Counter) : (s.set k c).now = s.now := rfl

@[simp] theorem set_self (s : Store κ) (k : κ) (c : Option Counter) : (s.set k c).counters k = c := by
  simp [set]

@[simp] theorem set_of_ne (s : Store κ) {j k : κ} (c : Option Counter) (h : j ≠ k) :
    (s.set k c).counters j = s.counters j := by
  simp [set, h]

end Store

/-! ## Windows -/

structure Window where
  start : ℤ
  stop : ℤ

/-- Counting stays in the window of its key, an expiry is set for later than its
end, a removed counter has expired and the clock goes forward. -/
def Timely (window : κ → Window) (s : Store κ) : Command κ → Prop
  | .incr k => (window k).start ≤ s.now ∧ s.now < (window k).stop
  | .expire k ttl => (window k).stop ≤ (window k).start + ttl
  | .remove k => s.Expired k
  | .advance now => s.now ≤ now

def Lasting (window : κ → Window) (s : Store κ) : Prop :=
  ∀ k c, s.counters k = some c → (window k).start ≤ s.now ∧ ∀ t, c.expiresAt = some t → (window k).stop ≤ t

def Spent (window : κ → Window) (s : Store κ) (k : κ) (n : ℕ) : Prop :=
  (window k).stop ≤ s.now ∨ ∃ c, s.counters k = some c ∧ n ≤ c.count

variable {window : κ → Window} {s : Store κ} {j k : κ} {n : ℕ} {cmd : Command κ}

theorem lasting_empty (now : ℤ) : Lasting window (Store.empty now) := nofun

theorem Spent.le_count (h : Spent window s k n) (hnow : s.now < (window k).stop) : n ≤ s.count k := by
  rcases h with hover | ⟨c, hc, hn⟩
  · omega
  · simpa [Store.count, hc] using hn

theorem Spent.ne_next (h : Spent window s k n) (hcmd : Timely window s (.incr k)) : n ≠ s.count k + 1 := by
  have hle := h.le_count hcmd.2
  omega

variable [DecidableEq κ]

theorem spent_incr (hn : n ≤ s.count k + 1) : Spent window (s.apply (.incr k)) k n :=
  Or.inr ⟨_, s.set_self k _, hn⟩

theorem Lasting.apply (h : Lasting window s) (hcmd : Timely window s cmd) : Lasting window (s.apply cmd) := by
  intro j c hc
  cases cmd with
  | incr k =>
    by_cases hjk : j = k
    · subst hjk
      obtain rfl := Option.some.inj ((s.set_self j _).symm.trans hc)
      refine ⟨hcmd.1, ?_⟩
      intro t ht
      obtain ⟨c, hcounter, hexpires⟩ := Option.bind_eq_some_iff.mp ht
      exact (h j c hcounter).2 t hexpires
    · exact h j c ((s.set_of_ne _ hjk).symm.trans hc)
  | expire k ttl =>
    by_cases hjk : j = k
    · subst hjk
      have hmap := (s.set_self j _).symm.trans hc
      obtain ⟨c₀, hcounter, rfl⟩ := Option.map_eq_some_iff.mp hmap
      obtain ⟨hstart, -⟩ := h j c₀ hcounter
      refine ⟨hstart, ?_⟩
      intro t ht
      obtain rfl := Option.some.inj ht
      have hlate : (window j).stop ≤ (window j).start + ttl := hcmd
      omega
    · exact h j c ((s.set_of_ne _ hjk).symm.trans hc)
  | remove k =>
    by_cases hjk : j = k
    · subst hjk
      cases (s.set_self j none).symm.trans hc
    · exact h j c ((s.set_of_ne _ hjk).symm.trans hc)
  | advance now =>
    have hforward : s.now ≤ now := hcmd
    obtain ⟨hstart, hexpires⟩ := h j c hc
    exact ⟨hstart.trans hforward, hexpires⟩

theorem Spent.apply (hs : Lasting window s) (h : Spent window s j n) (hcmd : Timely window s cmd) :
    Spent window (s.apply cmd) j n := by
  rcases h with hover | ⟨c, hc, hn⟩
  · left
    cases cmd with
    | advance now =>
      have hforward : s.now ≤ now := hcmd
      exact hover.trans hforward
    | incr k => exact hover
    | expire k ttl => exact hover
    | remove k => exact hover
  · cases cmd with
    | incr k =>
      by_cases hjk : j = k
      · subst hjk
        apply spent_incr
        have hcount : s.count j = c.count := by simp [Store.count, hc]
        omega
      · exact Or.inr ⟨c, (s.set_of_ne _ hjk).trans hc, hn⟩
    | expire k ttl =>
      by_cases hjk : j = k
      · subst hjk
        have hset : (s.apply (.expire j ttl)).counters j = some { c with expiresAt := some (s.now + ttl) } := by
          simp [Store.apply, hc]
        exact Or.inr ⟨_, hset, hn⟩
      · exact Or.inr ⟨c, (s.set_of_ne _ hjk).trans hc, hn⟩
    | remove k =>
      by_cases hjk : j = k
      · subst hjk
        obtain ⟨c', t, hc', ht, hpast⟩ := hcmd
        left
        have hlate := (hs j c' hc').2 t ht
        exact hlate.trans hpast
      · exact Or.inr ⟨c, (s.set_of_ne _ hjk).trans hc, hn⟩
    | advance now => exact Or.inr ⟨c, hc, hn⟩

end PyFaaS.ExpiringCounter
