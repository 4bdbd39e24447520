import DocLint.FileTree.Resolve
import DocLint.Main
import DocLint.Proofs.Frontmatter.RoundTrip
import DocLint.Proofs.Lint.Composition
import DocLint.Proofs.Prompt.Acceptance
import DocLint.Proofs.Frontmatter.Extraction
import DocLint.Proofs.Frontmatter.Reread
import DocLint.Proofs.Lint.LineEndings
import DocLint.Proofs.Text.Characters
import DocLint.Proofs.Text.Decoding
import DocLint.Proofs.Prompt.Bytes
import DocLint.Proofs.Lint.Isolation
import DocLint.Proofs.Render.Sarif
import DocLint.Proofs.Lint.UniqueNames
import DocLint.Proofs.Lint.Relocation
import DocLint.Proofs.Frontmatter.Insertion
import DocLint.Proofs.Prompt.Findings
import DocLint.Proofs.Prompt.NameLine
import DocLint.Proofs.Prompt.Appending
import DocLint.Proofs.Lint.OneLine
import DocLint.Proofs.Json.Grammar
import DocLint.Proofs.Json.Printed
import DocLint.Proofs.Render.Data
import DocLint.Proofs.Skill.Body
import DocLint.Proofs.Lint.Quotes
import DocLint.Proofs.CommandLine.Outcomes
import DocLint.Proofs.CommandLine.Settings
import DocLint.Proofs.Prompt.Matches
import DocLint.Proofs.Frontmatter.Writing
import DocLint.Proofs.Lint.Targets
import DocLint.Proofs.Text.Newlines
import DocLint.Proofs.Report.Canonical
import DocLint.Proofs.Lint.Unreadable
import DocLint.Proofs.Toml.Keys
import DocLint.Proofs.Toml.Tables
import DocLint.Proofs.Settings.Overrides
import DocLint.Proofs.CommandLine.Mentions
