import Gitgres.Helper.Commands

/-!
# The command loop of the remote helper

`helperLoop` is the loop of `main`: read a line with `fgets`, chomp it, and dispatch on it;
a blank line or the end of the input ends the loop, and a command that dies ends the helper.
`gitRemoteGitgres` runs the loop on a whole input stream, with one round of fuel for each
character of it, which is more than the loop can use since every round reads a character.
-/

namespace Gitgres

/-- The loop of `main`, for at most `fuel` rounds. -/
def helperLoop (env : HelperEnv) : Nat → Helper → Prog Helper
  | 0, h => pure h
  | k + 1, h => match fgets 1024 h.input with
    | none => pure h
    | some (buf, rest) =>
      let line := chomp buf
      let h := { h with input := rest }
      if line = "capabilities".toList then helperLoop env k (cmdCapabilities h)
      else if line = "list".toList ∨ line = "list for-push".toList then do
        let h ← cmdList env h
        if h.exitCode.isSome then return h
        helperLoop env k h
      else if "fetch ".toList.isPrefixOf line then do
        let h ← cmdFetch env h
        if h.exitCode.isSome then return h
        helperLoop env k h
      else if "push ".toList.isPrefixOf line then do
        let h ← cmdPush env h line
        if h.exitCode.isSome then return h
        helperLoop env k h
      else if line = [] then pure h
      else helperLoop env k h

/-- `git-remote-gitgres` after start-up, on the input stream `input` and the local repository
`repo`. -/
def gitRemoteGitgres (env : HelperEnv) (input : List Char) (repo : LocalRepo) : Prog Helper :=
  helperLoop env (input.length + 1) ⟨input, [], repo, none⟩

end Gitgres
