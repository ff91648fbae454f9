import Comoment.Bitmap.View
import Comoment.Column.Basic

/-!
Columns built by appending. The builder keeps one bit for every value, and the finished column is
the same for every history that appends the same options.
-/

namespace Comoment

structure ColumnBuilder (ε : Type) where
  values : Array ε
  validity : Bitmap
  covered : validity.length = values.size

namespace ColumnBuilder

variable {ε : Type}

def empty : ColumnBuilder ε := ⟨#[], Bitmap.empty, rfl⟩

def length (builder : ColumnBuilder ε) : Nat := builder.values.size

def append (builder : ColumnBuilder ε) (value : ε) : ColumnBuilder ε where
  values := builder.values.push value
  validity := builder.validity.push true
  covered := by rw [Bitmap.push_length, builder.covered, Array.size_push]

def appendCopies (builder : ColumnBuilder ε) (value : ε) (count : Nat) : ColumnBuilder ε where
  values := builder.values ++ Array.replicate count value
  validity := builder.validity.extend count true
  covered := by
    rw [Bitmap.extend_length, builder.covered, Array.size_append, Array.size_replicate]

def appendNulls [Inhabited ε] (builder : ColumnBuilder ε) (count : Nat) : ColumnBuilder ε where
  values := builder.values ++ Array.replicate count default
  validity := builder.validity.extend count false
  covered := by
    rw [Bitmap.extend_length, builder.covered, Array.size_append, Array.size_replicate]

def appendOption [Inhabited ε] (builder : ColumnBuilder ε) : Option ε → ColumnBuilder ε
  | some value => builder.append value
  | none => builder.appendNulls 1

def finish (builder : ColumnBuilder ε) : Column ε :=
  Column.ofValidity builder.values builder.validity builder.covered

end ColumnBuilder

def Column.ofOptions {ε : Type} [Inhabited ε] (slots : List (Option ε)) : Column ε :=
  (slots.foldl ColumnBuilder.appendOption ColumnBuilder.empty).finish

end Comoment
