/-!
# Permits

A number of permits that are handed out first come, first served.  Whoever finds none free joins
the line; a permit that comes back goes to the head of the line before anybody else can take it,
so the head holds it even before it runs again.  A lock is one permit, a bounded channel has one
for every place, and a gate starts with none.
-/

namespace Batchflow

structure Permits (ι : Type) where
  free : Nat
  /-- Those who wait, in order of arrival. -/
  line : List ι
  /-- Those who hold a permit. -/
  held : List ι
  deriving Repr

namespace Permits

variable {ι : Type}

def ofFree (n : Nat) : Permits ι := { free := n, line := [], held := [] }

/-- All permits there are, with somebody or not. -/
def total (p : Permits ι) : Nat := p.free + p.held.length

/-- One more permit: for the head of the line, or free if nobody waits. -/
def add (p : Permits ι) : Permits ι :=
  match p.line with
  | [] => { p with free := p.free + 1 }
  | w :: line => { p with line, held := p.held ++ [w] }

def addMany : Nat → Permits ι → Permits ι
  | 0, p => p
  | n + 1, p => addMany n p.add

def request (p : Permits ι) (who : ι) : Permits ι :=
  match p.free with
  | 0 => { p with line := p.line ++ [who] }
  | free + 1 => { p with free, held := p.held ++ [who] }

@[simp] theorem total_add (p : Permits ι) : p.add.total = p.total + 1 := by
  unfold add total
  split
  · simp only
    omega
  · simp only [List.length_append, List.length_singleton]
    omega

@[simp] theorem total_request (p : Permits ι) (who : ι) : (p.request who).total = p.total := by
  unfold request total
  split
  · rfl
  · rename_i free h
    simp only [h, List.length_append, List.length_singleton]
    omega

/-- Nobody waits while a permit is free. -/
def Fair (p : Permits ι) : Prop := 0 < p.free → p.line = []

theorem fair_ofFree (n : Nat) : (ofFree n : Permits ι).Fair := fun _ => rfl

theorem Fair.add {p : Permits ι} (h : p.Fair) : p.add.Fair := by
  unfold Permits.add
  split
  · exact fun _ => ‹_›
  · intro hf
    have := h hf
    simp_all

theorem Fair.request {p : Permits ι} (h : p.Fair) (who : ι) : (p.request who).Fair := by
  unfold Permits.request
  split <;> intro hf
  · simp_all
  · exact h (by omega)

variable [DecidableEq ι]

/-- A holder keeps its permit for good. -/
def spend (p : Permits ι) (who : ι) : Permits ι := { p with held := p.held.erase who }

def giveBack (p : Permits ι) (who : ι) : Permits ι := (p.spend who).add

/-- Somebody gives up: it returns the permit it holds, or leaves the line. -/
def leave (p : Permits ι) (who : ι) : Permits ι :=
  if who ∈ p.held then p.giveBack who else { p with line := p.line.erase who }

def holds (p : Permits ι) (who : ι) : Bool := p.held.contains who

theorem total_spend {p : Permits ι} {who : ι} (h : who ∈ p.held) :
    (p.spend who).total + 1 = p.total := by
  have := List.length_erase_of_mem h
  have : 0 < p.held.length := List.length_pos_of_mem h
  simp only [spend, total]
  omega

theorem total_giveBack {p : Permits ι} {who : ι} (h : who ∈ p.held) :
    (p.giveBack who).total = p.total := by
  rw [giveBack, total_add, total_spend h]

theorem total_leave (p : Permits ι) (who : ι) : (p.leave who).total = p.total := by
  unfold leave
  split
  · exact total_giveBack ‹_›
  · rfl

theorem Fair.spend {p : Permits ι} (h : p.Fair) (who : ι) : (p.spend who).Fair := h

theorem Fair.leave {p : Permits ι} (h : p.Fair) (who : ι) : (p.leave who).Fair := by
  unfold Permits.leave
  split
  · exact (h.spend who).add
  · intro hf
    simp [h hf]

end Permits

end Batchflow
