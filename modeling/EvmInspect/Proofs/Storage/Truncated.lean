import EvmInspect.Proofs.Layout.Window
import EvmInspect.Storage.Dump
/-!
# Values that are too large to read

The size of a layout is clamped at every product and every sum of a nested type.  What comes out is
the room of the type, which is made of whole words, clamped once.  So a limit below the largest
addressable size leaves out exactly the types with more room, however far this room is from being
addressable.
-/

namespace EvmInspect.Recording

variable {config : Config} {limit : Nat} {ty : Ty}

theorem isTruncated_iff (hconfig : config.truncateLimit = some limit) :
    isTruncated config ty = true ↔ limit < min ty.room Size.limit := by
  simp only [isTruncated, hconfig, decide_eq_true_eq, ty.layoutSize_eq_min]

theorem ofDecoded_ne_truncated (decoded : Except Layout.Fault Declared) :
    Reading.ofDecoded decoded ≠ some .truncated := by
  cases decoded with
  | ok v => simp [Reading.ofDecoded]
  | error fault => cases hstops : fault.stops <;> simp [Reading.ofDecoded, hstops]

theorem readValue_eq_truncated (r : Recording) (address : Address) (slot : Nat) :
    r.readValue config address ty slot = some .truncated ↔ isTruncated config ty = true := by
  rw [readValue]
  cases isTruncated config ty with
  | true => exact iff_of_true rfl rfl
  | false => exact iff_of_false (ofDecoded_ne_truncated _) Bool.false_ne_true

/-- The size of a layout is the room of its type, in whole words, clamped at the largest addressable
size, and under any lower limit the values that are not read are those with more room. -/
theorem truncated_exact (ty : Ty) :
    ty.layoutSize = min ty.room Size.limit ∧ 32 ∣ ty.room ∧
      ∀ (config : Config) (limit : Nat),
        config.truncateLimit = some limit → limit < Size.limit →
          (isTruncated config ty = true ↔ limit < ty.room) ∧
            ∀ (r : Recording) (address : Address) (slot : Nat),
              r.readValue config address ty slot = some .truncated ↔ limit < ty.room := by
  refine ⟨ty.layoutSize_eq_min, ty.dvd_room, fun config limit hconfig hlimit => ?_⟩
  have hdecide : isTruncated config ty = true ↔ limit < ty.room := by
    rw [isTruncated_iff hconfig, Nat.lt_min, and_iff_left hlimit]
  exact ⟨hdecide, fun r address slot => by rw [readValue_eq_truncated, hdecide]⟩

/-- No elements take no room, whatever one of them would take, and a size far beyond what can be
addressed is not mistaken for a small one. -/
theorem truncated_exact_saturated :
    isTruncated { truncateLimit := some 0 } (.array (.bytes Size.limit) 0) = false ∧
      isTruncated { truncateLimit := some (Size.limit - 1) }
        (.dynArray (.array (.uint 256) (2 ^ 60)) 8) = true := by
  obtain ⟨-, -, hempty⟩ := truncated_exact (.array (.bytes Size.limit) 0)
  obtain ⟨-, -, hlarge⟩ := truncated_exact (.dynArray (.array (.uint 256) (2 ^ 60)) 8)
  have hnone := (hempty { truncateLimit := some 0 } 0 rfl (by decide)).1
  have hsome := (hlarge { truncateLimit := some (Size.limit - 1) } _ rfl (by decide)).1
  exact ⟨Bool.eq_false_iff.2 fun h => absurd (hnone.1 h) (by decide), hsome.2 (by decide)⟩

end EvmInspect.Recording
