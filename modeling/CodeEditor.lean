import CodeEditor.Editor.Operation
import CodeEditor.Pattern.Reader
import CodeEditor.Proofs.Decoration.Carried
import CodeEditor.Proofs.Decoration.Changes
import CodeEditor.Proofs.Decoration.Layers
import CodeEditor.Proofs.Decoration.Painting
import CodeEditor.Proofs.Decoration.Render
import CodeEditor.Proofs.Decoration.Underline
import CodeEditor.Proofs.Editor.Coherence
import CodeEditor.Proofs.Editor.Deadline
import CodeEditor.Proofs.Editor.Effects
import CodeEditor.Proofs.Editor.Faultless
import CodeEditor.Proofs.Editor.Freshness
import CodeEditor.Proofs.Editor.JumpFlash
import CodeEditor.Proofs.Editor.Log
import CodeEditor.Proofs.Editor.Results
import CodeEditor.Proofs.Editor.Scroll
import CodeEditor.Proofs.Editor.Session
import CodeEditor.Proofs.Editor.Steps
import CodeEditor.Proofs.Editor.Timeline
import CodeEditor.Proofs.Highlight.Debounce
import CodeEditor.Proofs.Highlight.Handout
import CodeEditor.Proofs.Highlight.Keywords
import CodeEditor.Proofs.Highlight.Registry
import CodeEditor.Proofs.Highlight.Reports
import CodeEditor.Proofs.Highlight.Runs
import CodeEditor.Proofs.Highlight.Staleness
import CodeEditor.Proofs.History.Reversal
import CodeEditor.Proofs.Language
import CodeEditor.Proofs.Layout.Click
import CodeEditor.Proofs.Layout.Overflow
import CodeEditor.Proofs.Selection.Primary
import CodeEditor.Proofs.Settings
import CodeEditor.Proofs.Style.Carried
import CodeEditor.Proofs.Style.Encoding
import CodeEditor.Proofs.Text.Caching
import CodeEditor.Proofs.Text.Offsets
