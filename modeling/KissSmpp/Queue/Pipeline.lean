import Mathlib.Data.List.Basic
import Mathlib.Logic.Relation

/-! # Pipelines

What enters a `Pipeline` at one end leaves it at the other, unless it is lost on the way; nothing inside
overtakes anything else. The stages of a pipeline are not part of the model: an element that passes from
one stage to the next changes nothing that can be seen here.

`Steps.inOrder` is what a pipeline is for: the elements that have left it are among those that arrived, in
the order in which they arrived. To use it for a system, give a view of its states as pipelines and show
that what the system does is a run of the view. -/

namespace Queue

open Relation

/-- **A pipeline**: the elements that have arrived and that have left, the oldest first, and those that are
inside, the one to leave next first. -/
structure Pipeline (α : Type) where
  arrived : List α
  departed : List α
  inside : List α

namespace Pipeline

variable {α : Type}

/-- **What can happen to a pipeline.** -/
inductive Step : Pipeline α → Pipeline α → Prop
  /-- An element arrives. -/
  | arrive (arrived departed inside : List α) (a : α) :
      Step ⟨arrived, departed, inside⟩ ⟨arrived ++ [a], departed, inside ++ [a]⟩
  /-- The element to leave next leaves. -/
  | leave (arrived departed inside : List α) (a : α) :
      Step ⟨arrived, departed, a :: inside⟩ ⟨arrived, departed ++ [a], inside⟩
  /-- Elements are lost. -/
  | lose (arrived departed : List α) {inside rest : List α} (h : rest.Sublist inside) :
      Step ⟨arrived, departed, inside⟩ ⟨arrived, departed, rest⟩

/-- A run of a pipeline. -/
abbrev Steps : Pipeline α → Pipeline α → Prop := ReflTransGen Step

/-- Several elements leave, one after the other. -/
theorem steps_leave (arrived departed inside d : List α) :
    Steps ⟨arrived, departed, d ++ inside⟩ ⟨arrived, departed ++ d, inside⟩ := by
  induction d generalizing departed with
  | nil => rw [List.append_nil]; exact .refl
  | cons a d ih =>
      have hrest := ih (departed ++ [a])
      rw [List.append_assoc] at hrest
      exact ReflTransGen.head (.leave arrived departed (d ++ inside) a) hrest

/-- Some leave, and some are lost. -/
theorem steps_advance {arrived departed inside d rest : List α} (h : rest.Sublist inside) :
    Steps ⟨arrived, departed, d ++ inside⟩ ⟨arrived, departed ++ d, rest⟩ :=
  (steps_leave arrived departed inside d).tail (.lose arrived (departed ++ d) h)

/-- **In order**: what has left, and then what is inside, is among what arrived, in the order of
arrival. -/
def InOrder (P : Pipeline α) : Prop := (P.departed ++ P.inside).Sublist P.arrived

variable {P P' : Pipeline α}

/-- Nothing that happens to a pipeline disturbs the order. -/
theorem Step.inOrder (h : Step P P') (hP : P.InOrder) : P'.InOrder := by
  cases h with
  | arrive arrived departed inside a =>
      show (departed ++ (inside ++ [a])).Sublist (arrived ++ [a])
      rw [← List.append_assoc]
      exact List.Sublist.append_right hP [a]
  | leave arrived departed inside a =>
      show ((departed ++ [a]) ++ inside).Sublist arrived
      rw [List.append_assoc]
      exact hP
  | lose arrived departed hrest => exact ((hrest.append_left departed).trans hP)

/-- What leaves a pipeline comes in the order in which it has entered, throughout a run. -/
theorem Steps.inOrder (h : Steps P P') (hP : P.InOrder) : P'.InOrder := by
  induction h with
  | refl => exact hP
  | tail _ hstep ih => exact hstep.inOrder ih

/-- What has left is among what arrived, in that order. -/
theorem InOrder.departed (h : P.InOrder) : P.departed.Sublist P.arrived :=
  (List.sublist_append_left _ _).trans h

end Pipeline

end Queue
