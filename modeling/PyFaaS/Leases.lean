import Mathlib.Algebra.Order.Group.Int
import Mathlib.Logic.Function.Basic
import PyFaaS.Runs

/-!
# Keys that are renewed and expire

A write gives a key its value for a time to live, and a key that has expired is not
there for a reader. A key whose writes give it one fixed time is there exactly while
its last write is younger.
-/

namespace PyFaaS.Leases
open Runs
variable {κ ν : Type*}

structure Entry (ν : Type*) where
  value : ν
  expiresAt : ℤ

structure Write (κ ν : Type*) where
  key : κ
  value : ν
  at_ : ℤ
  ttl : ℤ

/-- The writes are kept for what is said about the past. -/
structure Store (κ ν : Type*) where
  now : ℤ
  entries : κ → Option (Entry ν)
  writes : List (Write κ ν)

inductive Command (κ ν : Type*) where
  | set (key : κ) (value : ν) (ttl : ℤ)
  | advance (now : ℤ)

namespace Store

def empty (now : ℤ) : Store κ ν := ⟨now, fun _ => none, []⟩

def get (s : Store κ ν) (key : κ) : Option ν :=
  (s.entries key).bind fun e => if s.now < e.expiresAt then some e.value else none

def Live (s : Store κ ν) (key : κ) : Prop := (s.get key).isSome = true

variable [DecidableEq κ]

def apply (s : Store κ ν) : Command κ ν → Store κ ν
  | .set key value ttl =>
    { s with
      entries := Function.update s.entries key (some ⟨value, s.now + ttl⟩)
      writes := ⟨key, value, s.now, ttl⟩ :: s.writes }
  | .advance now => { s with now := now }

end Store

structure Recorded (s : Store κ ν) : Prop where
  past : ∀ w ∈ s.writes, w.at_ ≤ s.now
  written : ∀ key e, s.entries key = some e →
    ∃ w ∈ s.writes, w.key = key ∧ e = ⟨w.value, w.at_ + w.ttl⟩ ∧ ∀ w' ∈ s.writes, w'.key = key → w'.at_ ≤ w.at_
  present : ∀ w ∈ s.writes, (s.entries w.key).isSome = true

variable {s t : Store κ ν} {key : κ}

theorem Recorded.empty (now : ℤ) : Recorded (Store.empty now : Store κ ν) :=
  ⟨by simp [Store.empty], by simp [Store.empty], by simp [Store.empty]⟩

theorem Recorded.advance [DecidableEq κ] (hs : Recorded s) {now : ℤ} (h : s.now ≤ now) :
    Recorded (s.apply (.advance now)) :=
  ⟨fun w hw => (hs.past w hw).trans h, hs.written, hs.present⟩

theorem Recorded.set [DecidableEq κ] (hs : Recorded s) (value : ν) (ttl : ℤ) :
    Recorded (s.apply (.set key value ttl)) := by
  constructor
  · intro w hw
    rcases List.mem_cons.mp hw with rfl | hold
    · exact le_rfl
    · exact hs.past w hold
  · intro k e he
    by_cases hk : k = key
    · subst hk
      have hentry : (⟨value, s.now + ttl⟩ : Entry ν) = e := by
        simpa [Store.apply] using he
      refine ⟨⟨k, value, s.now, ttl⟩, List.mem_cons_self .., rfl, hentry.symm, fun w' hw' _ => ?_⟩
      rcases List.mem_cons.mp hw' with rfl | hold
      · exact le_rfl
      · exact hs.past w' hold
    · have hentry : s.entries k = some e := by simpa [Store.apply, hk] using he
      obtain ⟨w, hw, hkey, hvalue, hlast⟩ := hs.written k e hentry
      refine ⟨w, List.mem_cons_of_mem _ hw, hkey, hvalue, fun w' hw' hkey' => ?_⟩
      rcases List.mem_cons.mp hw' with rfl | hold
      · exact absurd hkey'.symm hk
      · exact hlast w' hold hkey'
  · intro w hw
    by_cases hk : w.key = key
    · simp [Store.apply, hk]
    · rcases List.mem_cons.mp hw with rfl | hold
      · exact absurd rfl hk
      · simpa [Store.apply, hk] using hs.present w hold

theorem get_some (hs : Recorded s) {value : ν} (h : s.get key = some value) :
    ∃ w ∈ s.writes, w.key = key ∧ w.value = value ∧ s.now < w.at_ + w.ttl := by
  obtain ⟨e, he, hvalue⟩ := Option.bind_eq_some_iff.mp h
  obtain ⟨w, hw, hkey, rfl, -⟩ := hs.written key e he
  split_ifs at hvalue with hnow
  exact ⟨w, hw, hkey, Option.some.inj hvalue, hnow⟩

theorem live_iff (hs : Recorded s) {ttl : ℤ} (hfixed : ∀ w ∈ s.writes, w.key = key → w.ttl = ttl) :
    s.Live key ↔ ∃ w ∈ s.writes, w.key = key ∧ s.now < w.at_ + ttl := by
  constructor
  · intro hlive
    obtain ⟨value, hvalue⟩ := Option.isSome_iff_exists.mp hlive
    obtain ⟨w, hw, hkey, -, hnow⟩ := get_some hs hvalue
    exact ⟨w, hw, hkey, hfixed w hw hkey ▸ hnow⟩
  · rintro ⟨w, hw, rfl, hnow⟩
    obtain ⟨e, he⟩ := Option.isSome_iff_exists.mp (hs.present w hw)
    obtain ⟨last, hlast, hkey, rfl, hlatest⟩ := hs.written w.key e he
    have hage := hlatest w hw rfl
    have httl := hfixed last hlast hkey
    have hthere : s.now < last.at_ + last.ttl := by omega
    simp [Store.Live, Store.get, he, hthere]

end PyFaaS.Leases
