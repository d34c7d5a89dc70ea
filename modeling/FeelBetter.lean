import FeelBetter.Machine.Runs
import FeelBetter.Lists
import FeelBetter.Listing
import FeelBetter.Memory
import FeelBetter.Firebase
import FeelBetter.Queries
import FeelBetter.TextAnalyzer
import FeelBetter.SentimentAnalyzer
import FeelBetter.Memories.Screen
import FeelBetter.Memories.Transitions
import FeelBetter.Memories.Identifiers
import FeelBetter.Memories.Rows
import FeelBetter.Memories.TableUpdates
import FeelBetter.Memories.Safety
import FeelBetter.Memories.FreshFetch
import FeelBetter.Memories.Sessions
import FeelBetter.Memories.Saving
import FeelBetter.Memories.Cells
import FeelBetter.Storage
import FeelBetter.ReadBack
import FeelBetter.Picture
import FeelBetter.Rounding
import FeelBetter.WordCloud.CoreGraphics
import FeelBetter.WordCloud.Canvas
import FeelBetter.WordCloud.Compositor
import FeelBetter.WordCloud.Placement
import FeelBetter.WordCloud.Strides
import FeelBetter.WordCloud.Bounds
import FeelBetter.Home
import FeelBetter.ChartView
import FeelBetter.Scale
import FeelBetter.ChartGeometry
import FeelBetter.ChartRedraw
import FeelBetter.Trends
import FeelBetter.Tally
import FeelBetter.Reads
import FeelBetter.Keywords
import FeelBetter.WordCloud.Cell
import FeelBetter.Sentiments
import FeelBetter.HomeSession
import FeelBetter.Diary
import FeelBetter.Memories.Browsing
import FeelBetter.SignIn
import FeelBetter.ImageTagMemory
import FeelBetter.ComputerVision
import FeelBetter.Machine.Termination
import FeelBetter.Machine.Arrivals
import FeelBetter.Machine.SerialQueue
import FeelBetter.Machine.Simulation
import FeelBetter.Suggestions.Search
import FeelBetter.Suggestions.Pieces
import FeelBetter.Suggestions.Gathering
import FeelBetter.Suggestions.Matches
import FeelBetter.Suggestions.Results
import FeelBetter.Suggestions.Provider
import FeelBetter.Suggestions.Analyses
import FeelBetter.NewMemory.Screen
import FeelBetter.NewMemory.Override
import FeelBetter.NewMemory.Taps
import FeelBetter.NewMemory.Analysis
import FeelBetter.NewMemory.Form
import FeelBetter.NewMemory.Popup
import FeelBetter.NewMemory.Saved
import FeelBetter.Suggestions.Order
import FeelBetter.Suggestions.Cached
import FeelBetter.Suggestions.Strip
import FeelBetter.Memories.Journal
